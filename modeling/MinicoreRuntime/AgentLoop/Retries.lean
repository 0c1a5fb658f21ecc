import MinicoreRuntime.AgentLoop.Delivery
import MinicoreRuntime.AgentLoop.Conformance
import MinicoreRuntime.Model.Chunking
import MinicoreRuntime.Runtime.Signals

/-!
# Retries

The driver sends a request again only where nothing can have been delivered. This module reads the
calls of the model off a trace, each with the events of its stream, the progress it offered and the
error the adapter reported, and states when one call may follow another and what is offered.

## Main definitions

* `ModelCall.Retryable`, `Retries`: a call that may be retried, and calls that are retries.
* `Careful`: what holds of the calls in every trace of the driver.

## Main results

* `le_exponentialDelay`: the delay doubles up to the cap.
* `careful_of_accepts`: what the checks before every call lead to.
* `retry_safe`: the calls and the progress of every run of the driver.
-/

namespace MinicoreRuntime

open Interactive

/-! ## Delays -/

/-- The delay before a retry doubles with every retry, up to the cap. -/
theorem le_exponentialDelay (baseDelay retryIndex : Nat) :
    min (baseDelay * 2 ^ retryIndex) maxModelRetryDelay ≤
      exponentialDelay baseDelay retryIndex := by
  induction retryIndex with
  | zero =>
    rw [Nat.pow_zero, Nat.mul_one]
    exact Nat.min_le_left _ _
  | succ retryIndex ih =>
    have hdouble : baseDelay * 2 ^ (retryIndex + 1) = baseDelay * 2 ^ retryIndex * 2 := by
      rw [Nat.pow_succ, Nat.mul_assoc]
    rw [exponentialDelay, checkedMul, hdouble]
    split
    · rw [Option.getD_some]
      omega
    · -- Past the longest span the cap is taken at once.
      rw [Option.getD_none, Nat.min_self]
      exact Nat.min_le_right _ _

/-- The delay before a retry is at least what the provider asks for, which is at most the cap. -/
theorem le_delayForRetry {policy : RetryPolicySnapshot} {retryIndex : Nat} {retryAfter : Option Nat}
    {delay : Nat} (h : policy.delayForRetry retryIndex retryAfter = some delay) :
    (∀ value ∈ retryAfter, value ≤ maxModelRetryDelay) ∧
      max (retryAfter.getD 0) (min (policy.baseDelay * 2 ^ retryIndex) maxModelRetryDelay) ≤
        delay := by
  have hexponential := le_exponentialDelay policy.baseDelay retryIndex
  unfold RetryPolicySnapshot.delayForRetry at h
  cases retryAfter with
  | none =>
    obtain rfl := Option.some.inj h
    exact ⟨by simp, max_le (Nat.zero_le _) hexponential⟩
  | some value =>
    dsimp only at h
    split at h
    · exact absurd h (by simp)
    · rename_i hvalue
      obtain rfl := Option.some.inj h
      refine ⟨fun value' hvalue' ↦ ?_, ?_⟩
      · obtain rfl := Option.mem_some_iff.mp hvalue'
        exact Nat.not_lt.mp hvalue
      · rw [Option.getD_some]
        omega

/-! ## Calls -/

/-- The progress offered in a trace, in order. -/
def offeredIn : List (Entry interface Nat) → List ModelDriverProgress
  | [] => []
  | ⟨.offerProgress progress, _, _⟩ :: past => offeredIn past ++ [progress]
  | _ :: past => offeredIn past

/-- The adapter reported of a call without events that nothing was delivered and that it may be
retried, and `instant` lies after the delay before retry `retryIndex`. -/
def ModelCall.Retryable (failed : ModelCall) (baseDelay retryIndex instant : Nat) : Prop :=
  failed.events = [] ∧ failed.offered = [] ∧ ∃ error failedAt retryAfter,
    failed.reported = some (error, failedAt) ∧ error.delivery = .notStarted ∧
    error.retryHint = .retryable retryAfter ∧ (∀ value ∈ retryAfter, value ≤ maxModelRetryDelay) ∧
    failedAt + max (retryAfter.getD 0) (min (baseDelay * 2 ^ retryIndex) maxModelRetryDelay) ≤
      instant

theorem ModelCall.Retryable.mono {failed : ModelCall} {baseDelay retryIndex instant later : Nat}
    (h : failed.Retryable baseDelay retryIndex instant) (hle : instant ≤ later) :
    failed.Retryable baseDelay retryIndex later := by
  obtain ⟨hevents, hoffered, error, failedAt, retryAfter, hreported, hdelivery, hhint, hbound,
    hdelay⟩ := h
  exact ⟨hevents, hoffered, error, failedAt, retryAfter, hreported, hdelivery, hhint, hbound,
    hdelay.trans hle⟩

/-- The calls before one that is made at `instant`: the last of them may be retried. -/
def Retries (baseDelay instant : Nat) : List ModelCall → Prop
  | [] => True
  | failed :: older => failed.Retryable baseDelay older.length instant

theorem Retries.mono {baseDelay instant later : Nat} {calls : List ModelCall}
    (h : Retries baseDelay instant calls) (hle : instant ≤ later) :
    Retries baseDelay later calls := by
  cases calls with
  | nil => trivial
  | cons failed older => exact ModelCall.Retryable.mono h hle

/-- What holds of the calls of a trace that begins with a driver's look at the clock. -/
structure Careful (driver : ModelDriver) (request : ModelRequest) (turnDeadline : Nat)
    (trace : List (Entry interface Nat)) : Prop where
  /-- There are at most as many as the policy allows. -/
  bounded : (modelCalls trace).length ≤ driver.retryPolicy.maxAttempts
  /-- They are all for the same request. -/
  same : ∀ call ∈ modelCalls trace, call.model = driver.model ∧ call.request = request
  /-- They are made before the deadline that was found at first. -/
  timely : ∀ call ∈ modelCalls trace, ∃ n deadline,
    trace.getLast? =
      some ⟨.effectiveDeadline turnDeadline driver.modelCallTimeout, n, some deadline⟩ ∧
    effectiveDeadlineFrom n turnDeadline driver.modelCallTimeout = some deadline ∧
    call.startedAt < deadline.instant
  /-- Each but the first retries the one before it. -/
  retried : ∀ newer call older, modelCalls trace = newer ++ call :: older →
    Retries driver.retryPolicy.baseDelay call.startedAt older
  /-- What is offered comes from the last one. -/
  offered : offeredIn trace = ((modelCalls trace).head?.map ModelCall.offered).getD []

/-! ## The checks before a call -/

/-- What may be performed after what was done since the driver began. -/
def MayPerform (driver : ModelDriver) (request : ModelRequest) (turnDeadline : Nat)
    (newer : List (Entry interface Nat)) : Op → Prop
  | .startModel model request' _ =>
    model = driver.model ∧ request' = request ∧
      (modelCalls newer).length < driver.retryPolicy.maxAttempts ∧
      ∃ last ∈ newer.head?, Retries driver.retryPolicy.baseDelay last.note (modelCalls newer) ∧
        ∃ n deadline, newer.getLast? =
            some ⟨.effectiveDeadline turnDeadline driver.modelCallTimeout, n, some deadline⟩ ∧
          effectiveDeadlineFrom n turnDeadline driver.modelCallTimeout = some deadline ∧
          last.note < deadline.instant
  | .offerProgress _ => modelCalls newer ≠ []
  | _ => True

/-- A wait that is over lasted until it was due. -/
def Op.Due : (o : Op) → Nat → o.Answer → Prop
  | .pollRetry _ retryAt, n, polled => polled = .ready () → retryAt ≤ n
  | _, _, _ => True

/-- What an answer says about the clock after a list of entries. -/
def Punctual (newer : List (Entry interface Nat)) (o : Op) (n : Nat) (r : o.Answer) : Prop :=
  (∀ last ∈ newer.head?, last.note ≤ n ∧ (o.waits = false → n = last.note)) ∧
    o.Timely n r ∧ o.Due n r

/-- The monitor of a driver that begins after a trace. -/
def retryMonitor (driver : ModelDriver) (request : ModelRequest) (turnDeadline : Nat)
    (base : List (Entry interface Nat)) : Monitor interface Nat :=
  .history
    (fun past o ↦ ∀ newer, past = newer ++ base → MayPerform driver request turnDeadline newer o)
    fun past o n r ↦ ∀ newer, past = newer ++ base → Punctual newer o n r

/-- A world comes after a trace, and its clock shows the instant of the last operation since. -/
def OnTime (base : List (Entry interface Nat)) (w : World) : Prop :=
  ∃ newer, w.trace = newer ++ base ∧ ∀ last ∈ newer.head?, last.note = w.clock

theorem World.advance_clock (w : World) (turn : Turn) (rest : List Turn) (o : Op) :
    w.clock ≤ (w.advance turn rest o).clock ∧
      (o.waits = false → (w.advance turn rest o).clock = w.clock) := by
  have hhost (steps : List HostStep) (w : World) : (w.hostSteps steps).clock = w.clock := by
    induction steps generalizing w with
    | nil => rfl
    | cons s steps ih =>
      refine (ih _).trans ?_
      have heffect := w.hostEffect s
      generalize w.hostStep s = w' at heffect
      cases heffect <;> rfl
  -- The steps of the host take no time; only the turn of a wait does.
  have hbase := hhost turn.host { w with schedule := rest }
  unfold World.advance
  dsimp only
  split
  · rename_i hwaits
    exact ⟨(Nat.le_of_eq hbase.symm).trans (Nat.le_add_right _ _),
      fun h ↦ absurd hwaits (by simp [h])⟩
  · exact ⟨Nat.le_of_eq hbase.symm, fun _ ↦ hbase⟩

/-- A wait is over only when it is due. -/
theorem World.answer_due {w : World} {turn : Turn} {o : Op} {r : o.Answer}
    (h : w.answer turn o = some r) : o.Due w.clock r := by
  cases o with
  | pollRetry deadline retryAt =>
    rintro rfl
    have hselect := Option.some.inj h
    unfold World.select at hselect
    split at hselect
    · exact absurd hselect (by simp)
    · split at hselect
      · exact absurd hselect (by simp)
      · split at hselect
        · omega
        · exact absurd hselect (by simp)
  | _ => trivial

/-- What unwinds did not wait. -/
theorem World.waits_of_answer_none {w : World} {turn : Turn} {o : Op} (h : w.answer turn o = none) :
    o.waits = false := by
  cases o with
  | now | effectiveDeadline _ _ | pollPort _ _ | pollStart _ | pollStream _ | pollRetry _ _
  | pollInteraction _ _ => exact absurd h (by simp [answer])
  | _ => rfl

theorem OnTime.step {base : List (Entry interface Nat)} {w : World} (h : OnTime base w) (o : Op) :
    OnTime base (w.step o).2 := by
  obtain ⟨newer, htrace, hclock⟩ := h
  rcases hstep : w.step o with ⟨r | - | -, w'⟩
  · obtain ⟨turn, rest, -, -, rfl⟩ := World.step_returned hstep
    refine ⟨⟨o, (w.advance turn rest o).clock, r⟩ :: newer, ?_, fun last hlast ↦ ?_⟩
    · dsimp only
      rw [World.recordEntry_trace, World.effect_trace, World.advance_trace, htrace]
      rfl
    · obtain rfl := Option.mem_some_iff.mp hlast
      exact (World.effect_clock _ o).symm
  · -- Nothing is recorded, and no time has passed.
    obtain ⟨turn, rest, -, hanswer, rfl⟩ := World.step_panicked hstep
    rw [World.effect_of_answer_none hanswer]
    refine ⟨newer, (w.advance_trace turn rest o).trans htrace, fun last hlast ↦ ?_⟩
    dsimp only
    rw [(w.advance_clock turn rest o).2 (World.waits_of_answer_none hanswer)]
    exact hclock last hlast
  · rw [(World.step_stalled hstep).2]
    exact ⟨newer, htrace, hclock⟩

/-- The machine is punctual. -/
theorem honours_retry (driver : ModelDriver) (request : ModelRequest) (turnDeadline : Nat)
    (base : List (Entry interface Nat)) :
    machine.Honours (retryMonitor driver request turnDeadline base) (OnTime base) where
  keeps o _ h _ := h.step o
  expected {o w r w' n} h _ hstep htrace := by
    obtain ⟨turn, rest, -, hanswer, rfl⟩ := World.step_returned hstep
    -- The entry that was recorded carries the clock after the turn.
    have hentry : (⟨o, (w.advance turn rest o).clock, r⟩ : Entry interface Nat) = ⟨o, n, r⟩ := by
      change World.trace _ = _ at htrace
      rw [World.recordEntry_trace] at htrace
      exact (List.cons.inj htrace).1
    obtain rfl : (w.advance turn rest o).clock = n := congrArg Entry.note hentry
    have hrun : (retryMonitor driver request turnDeadline base).run (machine.trace w) = w.trace :=
      Monitor.history_run _ _ _
    rw [hrun]
    intro newer hnewer
    obtain ⟨newer', htrace', hclock⟩ := h
    obtain rfl : newer' = newer := List.append_cancel_right (htrace'.symm.trans hnewer)
    obtain ⟨hle, hsame⟩ := w.advance_clock turn rest o
    refine ⟨fun last hlast ↦ ?_, World.answer_timely hanswer, World.answer_due hanswer⟩
    rw [hclock last hlast]
    exact ⟨hle, hsame⟩

/-- Nothing is asked of the trace after which the driver begins. -/
theorem accepts_base (driver : ModelDriver) (request : ModelRequest) (turnDeadline : Nat)
    (base : List (Entry interface Nat)) :
    (retryMonitor driver request turnDeadline base).Accepts base := by
  -- Nothing is asked of a trace that does not extend the base.
  have hshort (t : List (Entry interface Nat)) (h : t.length ≤ base.length) :
      (retryMonitor driver request turnDeadline base).Accepts t := by
    induction t with
    | nil => trivial
    | cons e past ih =>
      have hbefore (newer : List (Entry interface Nat)) : past ≠ newer ++ base := by
        rintro rfl
        rw [List.length_cons, List.length_append] at h
        omega
      refine (Monitor.accepts_cons _ e past).mpr ⟨ih (Nat.le_of_succ_le h), ?_, ?_⟩
      · rw [show (retryMonitor driver request turnDeadline base).run past = past from
          Monitor.history_run _ _ _]
        exact fun newer hnewer ↦ absurd hnewer (hbefore newer)
      · rw [show (retryMonitor driver request turnDeadline base).run past = past from
          Monitor.history_run _ _ _]
        exact fun newer hnewer ↦ absurd hnewer (hbefore newer)
  exact hshort base (Nat.le_refl _)

/-! ## The calls of a trace -/

theorem ModelCall.after_same (call : ModelCall) (e : Entry interface Nat) :
    (call.after e).model = call.model ∧ (call.after e).request = call.request ∧
      (call.after e).startedAt = call.startedAt := by
  unfold ModelCall.after
  split <;> exact ⟨rfl, rfl, rfl⟩

section

variable {driver : ModelDriver} {request : ModelRequest} {turnDeadline : Nat}
  {base past : List (Entry interface Nat)} {e : Entry interface Nat}

/-- A call of a trace is still one of it after an operation, with more known of it. -/
theorem mem_modifyHead_after {calls : List ModelCall} {call : ModelCall}
    (h : call ∈ calls.modifyHead (ModelCall.after · e)) :
    ∃ call' ∈ calls, call.model = call'.model ∧ call.request = call'.request ∧
      call.startedAt = call'.startedAt := by
  cases calls with
  | nil => exact absurd h List.not_mem_nil
  | cons last older =>
    rcases List.mem_cons.mp h with rfl | hmem
    · exact ⟨last, List.mem_cons_self, last.after_same e⟩
    · exact ⟨call, List.mem_cons_of_mem _ hmem, rfl, rfl, rfl⟩

/-- An operation that does not start the model concerns the last call. -/
theorem Careful.after (h : Careful driver request turnDeadline past) (hstart : startedCall e = none)
    (hoffered : offeredIn (e :: past) =
      ((modelCalls (e :: past)).head?.map ModelCall.offered).getD []) :
    Careful driver request turnDeadline (e :: past) := by
  have hcalls : modelCalls (e :: past) = (modelCalls past).modifyHead (ModelCall.after · e) :=
    modelCalls_cons_of_none hstart
  refine ⟨?_, fun call hcall ↦ ?_, fun call hcall ↦ ?_, ?_, hoffered⟩
  · rw [hcalls, List.length_modifyHead]
    exact h.bounded
  · rw [hcalls] at hcall
    obtain ⟨call', hcall', hmodel, hrequest, -⟩ := mem_modifyHead_after hcall
    rw [hmodel, hrequest]
    exact h.same call' hcall'
  · rw [hcalls] at hcall
    obtain ⟨call', hcall', -, -, hstarted⟩ := mem_modifyHead_after hcall
    obtain ⟨n, deadline, hfirst, hfound, hlt⟩ := h.timely call' hcall'
    refine ⟨n, deadline, ?_, hfound, by rwa [hstarted]⟩
    rw [List.getLast?_cons, hfirst]
    rfl
  · -- The split before the last call is new, and it concerns the same instant.
    intro newer call older heq
    rw [hcalls] at heq
    cases hpast : modelCalls past with
    | nil =>
      rw [hpast] at heq
      exact absurd heq (by simp)
    | cons last rest =>
      rw [hpast] at heq
      cases newer with
      | nil =>
        obtain ⟨rfl, rfl⟩ := List.cons.inj heq
        rw [(last.after_same e).2.2]
        exact h.retried [] last rest hpast
      | cons _ newer =>
        obtain ⟨-, rfl⟩ := List.cons.inj heq
        exact h.retried (last :: newer) call older hpast

/-- A call is made after the checks. -/
theorem Careful.start (h : Careful driver request turnDeadline past) {model : ModelHandle}
    {request' : ModelRequest} {context : ModelCallContext} {n : Nat} {made : Bool}
    (hmay : MayPerform driver request turnDeadline past (.startModel model request' context))
    (hpunctual : Punctual past (.startModel model request' context) n made) :
    Careful driver request turnDeadline
      (⟨.startModel model request' context, n, made⟩ :: past) := by
  obtain ⟨rfl, rfl, hbounded, last, hlast, hretries, hdeadline⟩ := hmay
  obtain rfl : n = last.note := (hpunctual.1 last hlast).2 rfl
  have hgetLast {first : Entry interface Nat} (hfirst : past.getLast? = some first) :
      (⟨.startModel driver.model request' context, last.note, made⟩ :: past).getLast? =
        some first := by
    rw [List.getLast?_cons, hfirst]
    rfl
  refine ⟨hbounded, fun call hcall ↦ ?_, fun call hcall ↦ ?_, ?_, ?_⟩
  · rcases List.mem_cons.mp hcall with rfl | hcall
    · exact ⟨rfl, rfl⟩
    · exact h.same call hcall
  · rcases List.mem_cons.mp hcall with rfl | hcall
    · obtain ⟨m, deadline, hfirst, hfound, hlt⟩ := hdeadline
      exact ⟨m, deadline, hgetLast hfirst, hfound, hlt⟩
    · obtain ⟨m, deadline, hfirst, hfound, hlt⟩ := h.timely call hcall
      exact ⟨m, deadline, hgetLast hfirst, hfound, hlt⟩
  · intro newer call older heq
    cases newer with
    | nil =>
      obtain ⟨rfl, rfl⟩ := List.cons.inj heq
      exact hretries
    | cons _ newer => exact h.retried newer call older (List.cons.inj heq).2
  · -- Nothing was offered before the first call, nor by a call that may be retried.
    refine h.offered.trans ?_
    cases hpast : modelCalls past with
    | nil => rfl
    | cons failed older =>
      rw [hpast] at hretries
      exact hretries.2.1

/-- What the checks before every call lead to. -/
theorem careful_of_accepts
    (h : (retryMonitor driver request turnDeadline base).Accepts (past ++ base)) :
    Careful driver request turnDeadline past := by
  induction past with
  | nil =>
    exact ⟨Nat.zero_le _, by simp [modelCalls], by simp [modelCalls], by simp [modelCalls], rfl⟩
  | cons e past ih =>
    obtain ⟨hpast, hallowed, hexpected⟩ :=
      ((retryMonitor driver request turnDeadline base).accepts_cons e (past ++ base)).mp h
    rw [show (retryMonitor driver request turnDeadline base).run (past ++ base) = past ++ base from
      Monitor.history_run _ _ _] at hallowed hexpected
    have hcareful := ih hpast
    have hmay : MayPerform driver request turnDeadline past e.op := hallowed past rfl
    have hpunctual : Punctual past e.op e.note e.answer := hexpected past rfl
    obtain ⟨o, n, r⟩ := e
    -- An operation that neither starts the model nor offers progress changes nothing here.
    have hother (hstart : startedCall ⟨o, n, r⟩ = none)
        (hsame : offeredIn (⟨o, n, r⟩ :: past) = offeredIn past)
        (hafter : ∀ call : ModelCall, (call.after ⟨o, n, r⟩).offered = call.offered) :
        Careful driver request turnDeadline (⟨o, n, r⟩ :: past) := by
      refine hcareful.after hstart ?_
      rw [hsame, hcareful.offered, modelCalls_cons_of_none hstart]
      cases modelCalls past with
      | nil => rfl
      | cons last older => exact (hafter last).symm
    cases o with
    | startModel model request' context => exact hcareful.start hmay hpunctual
    | offerProgress progress =>
      refine hcareful.after rfl ?_
      show offeredIn past ++ [progress] = _
      rw [hcareful.offered, modelCalls_cons_of_none rfl]
      obtain ⟨last, older, hcalls⟩ := List.exists_cons_of_ne_nil hmay
      rw [hcalls]
      rfl
    | pollStart deadline =>
      refine hother rfl rfl fun call ↦ ?_
      rcases r with - | - | (error | -) | - | - <;> rfl
    | pollStream deadline =>
      refine hother rfl rfl fun call ↦ ?_
      rcases r with - | - | (- | (error | event)) | - | - <;> rfl
    | _ => exact hother rfl rfl fun _ ↦ rfl


end

/-! ## The driver -/

/-- Operations that neither a call of the model nor its progress is about. -/
def Op.apart : Op → Bool
  | .startModel _ _ _ | .pollStart _ | .pollStream _ | .offerProgress _ => false
  | _ => true

/-- What the runner does while the driver waits. -/
theorem apart_drainProgress (ctx : LoopCtx) (requestIndex : Nat) :
    (drainProgress ctx requestIndex).Uses fun o : Op ↦ o.apart = true := by
  refine Prog.uses_iterate fun _ ↦ Prog.uses_bind ⟨rfl, fun _ ↦ trivial⟩ fun value ↦ ?_
  cases value with
  | none => trivial
  | some value => exact ⟨rfl, fun _ ↦ ⟨rfl, fun _ ↦ ⟨rfl, fun _ ↦ trivial⟩⟩⟩

/-- Since a trace the driver found the deadline and made calls, and the clock satisfies `P`. -/
def Underway (driver : ModelDriver) (turnDeadline : Nat) (base : List (Entry interface Nat))
    (deadline : EffectiveDeadline) (calls : List ModelCall) (P : Nat → Prop)
    (t : List (Entry interface Nat)) : Prop :=
  ∃ newer, t = newer ++ base ∧ modelCalls newer = calls ∧ (∃ last ∈ newer.head?, P last.note) ∧
    ∃ n, newer.getLast? =
        some ⟨.effectiveDeadline turnDeadline driver.modelCallTimeout, n, some deadline⟩ ∧
      effectiveDeadlineFrom n turnDeadline driver.modelCallTimeout = some deadline

section

variable {driver : ModelDriver} {request : ModelRequest} {turnDeadline now : Nat}
  {base t : List (Entry interface Nat)} {deadline : EffectiveDeadline} {calls : List ModelCall}
  {P P' : Nat → Prop} {α β : Type}

theorem Underway.mono (h : Underway driver turnDeadline base deadline calls P t)
    (hP : ∀ n, P n → P' n) : Underway driver turnDeadline base deadline calls P' t := by
  obtain ⟨newer, rfl, hcalls, ⟨last, hlast, hnote⟩, hfirst⟩ := h
  exact ⟨newer, rfl, hcalls, ⟨last, hlast, hP _ hnote⟩, hfirst⟩

/-- An operation that does not start the model. -/
theorem Underway.cons {o : Op} {n : Nat} {r : o.Answer}
    (h : Underway driver turnDeadline base deadline calls P t)
    (hexpected : (retryMonitor driver request turnDeadline base).expects t o n r)
    (hstart : startedCall ⟨o, n, r⟩ = none) :
    ∃ m, P m ∧ m ≤ n ∧ (o.waits = false → n = m) ∧ o.Timely n r ∧ o.Due n r ∧
      Underway driver turnDeadline base deadline (calls.modifyHead (ModelCall.after · ⟨o, n, r⟩))
        (· = n) (⟨o, n, r⟩ :: t) := by
  obtain ⟨newer, rfl, rfl, ⟨last, hlast, hnote⟩, first, hfirst, hfound⟩ := h
  obtain ⟨hticks, htimely, hdue⟩ := hexpected newer rfl
  obtain ⟨hle, hsame⟩ := hticks last hlast
  refine ⟨last.note, hnote, hle, hsame, htimely, hdue, ⟨o, n, r⟩ :: newer, rfl,
    modelCalls_cons_of_none hstart, ⟨_, rfl, rfl⟩, first, ?_, hfound⟩
  rw [List.getLast?_cons, hfirst]
  rfl

theorem Op.apart_spec {o : Op} (h : o.apart = true) (n : Nat) (r : o.Answer) :
    startedCall ⟨o, n, r⟩ = none ∧ ∀ call : ModelCall, call.after ⟨o, n, r⟩ = call := by
  cases o with
  | startModel | pollStart | pollStream | offerProgress => exact absurd h (by simp [Op.apart])
  | _ => exact ⟨rfl, fun _ ↦ rfl⟩

theorem mayPerform_of_apart {o : Op} (h : o.apart = true) :
    (retryMonitor driver request turnDeadline base).allowed t o := by
  intro newer _
  cases o with
  | startModel | pollStart | pollStream | offerProgress => exact absurd h (by simp [Op.apart])
  | _ => trivial

/-- An operation that no call is about. -/
theorem Underway.apart {o : Op} {n : Nat} {r : o.Answer}
    (h : Underway driver turnDeadline base deadline calls P t) (ho : o.apart = true)
    (hexpected : (retryMonitor driver request turnDeadline base).expects t o n r) :
    ∃ m, P m ∧ m ≤ n ∧ o.Timely n r ∧ o.Due n r ∧
      Underway driver turnDeadline base deadline calls (· = n) (⟨o, n, r⟩ :: t) := by
  obtain ⟨hstart, hafter⟩ := Op.apart_spec ho n r
  obtain ⟨m, hm, hle, -, htimely, hdue, hcons⟩ := h.cons hexpected hstart
  have hsame : calls.modifyHead (ModelCall.after · ⟨o, n, r⟩) = calls := by
    cases calls with
    | nil => rfl
    | cons call older => exact congrArg (· :: older) (hafter call)
  rw [hsame] at hcons
  exact ⟨m, hm, hle, htimely, hdue, hcons⟩

theorem underway_stable {o : Op} (ho : o.apart = true) :
    (retryMonitor driver request turnDeadline base).Stable
      (Underway driver turnDeadline base deadline calls (now ≤ ·)) o := by
  refine fun _ ht ↦ ⟨mayPerform_of_apart ho, fun n r hexpected ↦ ?_⟩
  obtain ⟨m, hm, hle, -, -, hnext⟩ := Underway.apart ht ho hexpected
  exact hnext.mono fun n' hn' ↦ (hm.trans hle).trans (Nat.le_of_eq hn'.symm)

/-! ### Checks and waits -/

/-- A check that passes found the clock before the deadline. -/
theorem underway_precheck (ht : Underway driver turnDeadline base deadline calls (now ≤ ·) t) :
    (retryMonitor driver request turnDeadline base).wp (precheck deadline)
      (.ofReturned fun checked t' ↦ checked = .ok () →
        Underway driver turnDeadline base deadline calls
          (fun n ↦ now ≤ n ∧ n < deadline.instant) t') t := by
  refine (retryMonitor _ _ _ _).wp_stable_bind (underway_stable rfl) ht fun cancelled t₁ ht₁ ↦ ?_
  split
  · exact fun h ↦ absurd h (by simp)
  · refine (retryMonitor driver request turnDeadline base).wp_call_bind_of
      (mayPerform_of_apart rfl) fun n found hexpected ↦ ?_
    obtain ⟨m, hm, hle, htimely, -, hnext⟩ := Underway.apart ht₁ rfl hexpected
    -- The clock that was read is the clock of the entry.
    have hfound : found = n := htimely
    subst found
    split
    · exact fun h ↦ absurd h (by simp)
    · rename_i hlt
      refine fun _ ↦ hnext.mono ?_
      rintro _ rfl
      exact ⟨hm.trans hle, Nat.not_le.mp hlt⟩

/-- Which failures are retried, and when. -/
theorem underway_evaluateRetry (policy : RetryPolicySnapshot) (attempt : Nat)
    (failure : AttemptFailure) (instant : Nat)
    (ht : Underway driver turnDeadline base deadline calls (now ≤ ·) t) :
    (retryMonitor driver request turnDeadline base).wp
      (policy.evaluateRetry attempt failure instant)
      (.ofReturned fun delay t' ↦
        Underway driver turnDeadline base deadline calls (now ≤ ·) t' ∧
        ∀ value ∈ delay, attempt + 1 < policy.maxAttempts ∧ failure.observedEvent = false ∧
          failure.error.delivery = .notStarted ∧ ∃ retryAfter,
            failure.error.retryHint = .retryable retryAfter ∧
            (∀ value ∈ retryAfter, value ≤ maxModelRetryDelay) ∧
            max (retryAfter.getD 0) (min (policy.baseDelay * 2 ^ attempt) maxModelRetryDelay) ≤
              value)
      t := by
  unfold RetryPolicySnapshot.evaluateRetry
  -- Each check that fails means no retry; what is left is what a retry promises.
  split
  · exact ⟨ht, by simp⟩
  rename_i hretry
  simp only [Bool.or_eq_true, decide_eq_true_eq, not_or, not_not, Nat.not_le, Bool.not_eq_true]
    at hretry
  obtain ⟨⟨hattempt, hobserved⟩, hdelivery⟩ := hretry
  split
  · exact ⟨ht, by simp⟩
  rename_i retryAfter hhint
  split
  · exact ⟨ht, by simp⟩
  rename_i delay hdelay
  obtain ⟨hbound, hle⟩ := le_delayForRetry hdelay
  unfold retryFits
  rw [Prog.bind_eq, Prog.bind_eq]
  refine (retryMonitor driver request turnDeadline base).wp_bind_of
    (Q := fun _ t' ↦ Underway driver turnDeadline base deadline calls (now ≤ ·) t') ?_ ?_
  · exact (retryMonitor _ _ _ _).wp_stable_bind (underway_stable rfl) ht fun now t₁ ht₁ ↦ ht₁
  · intro fits t₁ ht₁
    split
    · refine ⟨ht₁, fun value hvalue ↦ ?_⟩
      obtain rfl := Option.mem_some_iff.mp hvalue
      exact ⟨hattempt, hobserved, hdelivery, retryAfter, hhint, hbound, hle⟩
    · exact ⟨ht₁, by simp⟩

/-- A wait that is over took as long as it should. -/
theorem underway_waitForRetry {awaiter : Action Unit}
    (hawait : awaiter.Uses fun o : Op ↦ o.apart = true) (delay : Nat) (error : ModelError)
    (ht : Underway driver turnDeadline base deadline calls (now ≤ ·) t) :
    (retryMonitor driver request turnDeadline base).wp (waitForRetry awaiter deadline delay error)
      (.ofReturned fun waited t' ↦ waited = .ok () →
        Underway driver turnDeadline base deadline calls (now + delay ≤ ·) t') t := by
  refine (retryMonitor driver request turnDeadline base).wp_call_bind_of
    (mayPerform_of_apart rfl) fun n found hexpected ↦ ?_
  obtain ⟨m, hm, hle, htimely, -, hnext⟩ := Underway.apart ht rfl hexpected
  have hfound : found = n := htimely
  subst found
  split
  · trivial
  rename_i retryAt hadd
  -- The addition did not overflow.
  obtain rfl : n + delay = retryAt := by
    unfold checkedAdd at hadd
    split at hadd
    · exact Option.some.inj hadd
    · exact absurd hadd (by simp)
  refine (retryMonitor driver request turnDeadline base).wp_iterate
    (fun _ t' ↦ Underway driver turnDeadline base deadline calls (n ≤ ·) t')
    (hnext.mono fun _ h ↦ Nat.le_of_eq h.symm) fun _ t₂ ht₂ ↦ ?_
  refine (retryMonitor driver request turnDeadline base).wp_call_bind_of
    (mayPerform_of_apart rfl) fun n' polled hexpected ↦ ?_
  obtain ⟨m', hm', hle', -, hdue, hnext⟩ := Underway.apart ht₂ rfl hexpected
  have hwaiting : Underway driver turnDeadline base deadline calls (n ≤ ·) _ :=
    hnext.mono fun _ h ↦ (hm'.trans hle').trans (Nat.le_of_eq h.symm)
  -- Only a poll that is ready ends the wait, and it came after the delay.
  cases polled with
  | cancelled => exact fun h ↦ absurd h (by simp)
  | expired => exact fun h ↦ absurd h (by simp)
  | ready =>
    have hinstant : n + delay ≤ n' := hdue rfl
    refine fun _ ↦ hnext.mono ?_
    rintro _ rfl
    omega
  | panicked =>
    exact (retryMonitor _ _ _ _).wp_uses_bind (fun _ ho ↦ underway_stable ho) hawait hwaiting
      fun _ t₃ ht₃ ↦ ht₃
  | pending =>
    exact (retryMonitor _ _ _ _).wp_uses_bind (fun _ ho ↦ underway_stable ho) hawait hwaiting
      fun _ t₃ ht₃ ↦ ht₃

/-! ### Attempts -/

/-- What a failure of an attempt tells, at `instant`, where no event was observed and nothing was
delivered: the adapter reported the error, and there was no event and no progress. -/
def ModelCall.Fails (call : ModelCall) (failure : AttemptFailure) (instant : Nat) : Prop :=
  failure.observedEvent = false → failure.error.delivery = .notStarted →
    call.events = [] ∧ call.offered = [] ∧ call.reported = some (failure.error, instant)

/-- A failure with an error that the driver made tells nothing. -/
theorem ModelCall.Fails.of_generated {call : ModelCall} {kind : ModelErrorKind}
    {observed observed' : Bool} {source : Option DeadlineSource} {instant : Nat} :
    call.Fails ⟨generatedError kind (observedDelivery observed), observed', source⟩ instant :=
  fun _ h ↦ absurd h (generatedError_ne_notStarted kind observed)

/-- The text of a channel in a response, empty where the response has no such part. -/
def Stream.Channel.textIn (ch : Stream.Channel) (response : ModelResponse) : Text :=
  (response.parts.filterMap ch.content?).flatMap (·.getD [])

/-- The progress of a call adds up to the text of a response. -/
def ModelCall.Yields (call : ModelCall) (response : ModelResponse) : Prop :=
  ∀ ch : Stream.Channel, (ch.deltas call.offered).flatMap BoundedText.asStr = ch.textIn response

/-- What an attempt leads to. -/
def ModelCall.Ends (call : ModelCall) (instant : Nat) :
    Except AttemptFailure ModelResponse → Prop
  | .ok response => call.Yields response
  | .error failure => call.Fails failure instant

/-- After an attempt. -/
def AfterModelCall (driver : ModelDriver) (turnDeadline : Nat) (base : List (Entry interface Nat))
    (deadline : EffectiveDeadline) (calls : List ModelCall)
    (result : Except AttemptFailure ModelResponse) (t : List (Entry interface Nat)) : Prop :=
  ∃ call now, Underway driver turnDeadline base deadline (call :: calls) (now ≤ ·) t ∧
    call.Ends now result

/-- After the start of an attempt was answered. -/
def AfterOpening (driver : ModelDriver) (turnDeadline : Nat) (base : List (Entry interface Nat))
    (deadline : EffectiveDeadline) (calls : List ModelCall) (call : ModelCall) (now : Nat)
    (started : Except AttemptFailure Unit) (t : List (Entry interface Nat)) : Prop :=
  match started with
  | .ok () => Underway driver turnDeadline base deadline (call :: calls) (now ≤ ·) t
  | .error failure => AfterModelCall driver turnDeadline base deadline calls (.error failure) t

theorem underway_start {awaiter : Action Unit} (hawait : awaiter.Uses fun o : Op ↦ o.apart = true)
    {call : ModelCall} (hevents : call.events = []) (hoffered : call.offered = [])
    (ht : Underway driver turnDeadline base deadline (call :: calls) (now ≤ ·) t) :
    (retryMonitor driver request turnDeadline base).wp
      (Prog.iterate (fun _ : Unit ↦ ModelDriver.pollStartCall awaiter deadline) ())
      (.ofReturned (AfterOpening driver turnDeadline base deadline calls call now)) t := by
  refine (retryMonitor driver request turnDeadline base).wp_iterate
    (fun _ t' ↦ Underway driver turnDeadline base deadline (call :: calls) (now ≤ ·) t') ht
    fun _ t₁ ht₁ ↦ ?_
  refine (retryMonitor driver request turnDeadline base).wp_call_bind_of (fun _ _ ↦ trivial)
    fun n polled hexpected ↦ ?_
  obtain ⟨m, hm, hle, -, -, -, hnext⟩ := Underway.cons ht₁ hexpected rfl
  have hlater : ∀ n', n' = n → now ≤ n' := fun _ h ↦ (hm.trans hle).trans (Nat.le_of_eq h.symm)
  have hhere : ∀ n', n' = n → n ≤ n' := fun _ h ↦ Nat.le_of_eq h.symm
  have hgenerated {call : ModelCall} {kind : ModelErrorKind} {source : Option DeadlineSource} :
      call.Fails ⟨generatedError kind (observedDelivery false), false, source⟩ n := .of_generated
  -- No event came yet: a failure of the driver's own, the adapter's, or an open stream.
  cases polled with
  | cancelled => exact ⟨_, n, hnext.mono hhere, hgenerated⟩
  | expired => exact ⟨_, n, hnext.mono hhere, hgenerated⟩
  | panicked => exact ⟨_, n, hnext.mono hhere, hgenerated⟩
  | pending =>
    exact (retryMonitor _ _ _ _).wp_uses_bind (fun _ ho ↦ underway_stable ho) hawait
      (hnext.mono hlater) fun _ t₂ ht₂ ↦ ht₂
  | ready result =>
    cases result with
    | ok => exact hnext.mono hlater
    | error error => exact ⟨_, n, hnext.mono hhere, fun _ _ ↦ ⟨hevents, hoffered, rfl⟩⟩

variable [SerdeJson]

/-- The assembler of a call reflects its events, and the progress offered is theirs. -/
structure ModelCall.Streams (call : ModelCall) (tools : List ToolSpec) (limits : LoopLimits)
    (assembler : Assembler) : Prop where
  reflects : Stream.Reflects tools limits call.events assembler
  admitted : Stream.Admitted tools limits call.events
  reported : call.reported = none
  offered : ∀ ch : Stream.Channel, normalizeModelText (ch.raw call.events) =
    (ch.deltas call.offered).flatMap BoundedText.asStr
  quiet : assembler.observedEvent = false → call.events = [] ∧ call.offered = []

namespace ModelCall.Streams

variable {call : ModelCall} {tools : List ToolSpec} {limits : LoopLimits}
  {assembler assembler' : Assembler} {event : ModelEvent} {progress : Option ModelDriverProgress}

/-- A call whose stream was just opened. -/
theorem new {call : ModelCall} (hevents : call.events = []) (hoffered : call.offered = [])
    (hreported : call.reported = none) (tools : List ToolSpec) (limits : LoopLimits) :
    call.Streams tools limits (.new tools limits) := by
  obtain ⟨model, request, startedAt, events, offered, reported⟩ := call
  obtain rfl : events = [] := hevents
  obtain rfl : offered = [] := hoffered
  refine ⟨Stream.reflects_new tools limits, ?_, hreported, fun ch ↦ ?_, fun _ ↦ ⟨rfl, rfl⟩⟩
  · intro past e rest h
    exact absurd h (by simp)
  · cases ch <;> rfl

/-- An event that is accepted, with its progress. -/
theorem push (h : call.Streams tools limits assembler) (hlimits : limits.Caps)
    (hpush : { assembler with observedEvent := true }.push event = .ok (progress, assembler')) :
    { call with events := call.events ++ [event]
                offered := call.offered ++ progress.toList }.Streams tools limits assembler' := by
  have hreflects := h.reflects.observed
  refine ⟨Stream.push_reflects hlimits hreflects hpush,
    Stream.admitted_snoc.mpr ⟨h.admitted, Stream.admits_of_push hlimits hreflects hpush⟩,
    h.reported, fun ch ↦ ?_, fun hobserved ↦ ?_⟩
  · have hdeltas : ch.deltas (call.offered ++ progress.toList) =
        ch.deltas call.offered ++ ch.deltas progress.toList := List.filterMap_append
    rw [hdeltas, List.flatMap_append, ← h.offered ch]
    exact (Stream.push_offered hlimits hreflects hpush ch).1
  · rw [Assembler.push_observed hpush] at hobserved
    exact absurd hobserved (by simp)

/-- The response at the end of a stream has the text that was offered. -/
theorem yields (h : call.Streams tools limits assembler) (hlimits : limits.Caps)
    {response : ModelResponse} (hfinish : assembler.finish = some (.ok response)) :
    call.Yields response := by
  obtain ⟨hcomplete, hincomplete⟩ := Stream.finish_of_reflects hlimits h.admitted h.reflects
  by_cases hevents : Stream.Complete call.events
  · obtain ⟨response', hfinish', hyields⟩ := hcomplete hevents
    obtain rfl := Except.ok.inj (Option.some.inj (hfinish.symm.trans hfinish'))
    intro ch
    obtain ⟨hnone, hsome⟩ := Stream.filter_owns_response hyields ch
    rw [← h.offered ch, Stream.Channel.textIn, Stream.filterMap_content]
    -- A channel whose text normalises to nothing has no part in the response.
    by_cases hempty : normalizeModelText (ch.raw call.events) = []
    · rw [hempty, hnone hempty]
      rfl
    · obtain ⟨part, hparts, hpart⟩ := hsome hempty
      rw [hparts]
      simp [hpart.content]
  · obtain ⟨e, herror⟩ := hincomplete hevents
    exact absurd (hfinish.symm.trans herror) (by simp)

end ModelCall.Streams

/-- A poll of the stream of a call. -/
theorem underway_pollEvent {awaiter : Action Unit}
    (hawait : awaiter.Uses fun o : Op ↦ o.apart = true) (hlimits : driver.limits.Caps)
    {tools : List ToolSpec} {call : ModelCall} {assembler : Assembler}
    (hstreams : call.Streams tools driver.limits assembler)
    (ht : Underway driver turnDeadline base deadline (call :: calls) (now ≤ ·) t) :
    (retryMonitor driver request turnDeadline base).wp
      (ModelDriver.pollEvent awaiter deadline assembler)
      (.ofReturned fun x t' ↦ x.elim
        (fun assembler ↦ ∃ call now, call.Streams tools driver.limits assembler ∧
          Underway driver turnDeadline base deadline (call :: calls) (now ≤ ·) t')
        fun result ↦ AfterModelCall driver turnDeadline base deadline calls result t') t := by
  refine (retryMonitor driver request turnDeadline base).wp_call_bind_of (fun _ _ ↦ trivial)
    fun n polled hexpected ↦ ?_
  obtain ⟨m, hm, hle, -, -, -, hnext⟩ := Underway.cons ht hexpected rfl
  replace hnext := hnext.mono fun n' (h : n' = n) ↦ Nat.le_of_eq h.symm
  rcases polled with - | - | (- | (error | event)) | - | -
  · exact ⟨_, n, hnext, .of_generated⟩
  · exact ⟨_, n, hnext, .of_generated⟩
  · -- The stream has ended.
    dsimp only
    split
    · trivial
    · rename_i response hfinish
      exact ⟨_, n, hnext, hstreams.yields hlimits hfinish⟩
    · rename_i error hfinish
      refine ⟨_, n, hnext, fun _ h ↦ absurd h (Assembler.finish_error hfinish).1⟩
  · -- The adapter reports an error; without an event it is taken as it is.
    refine ⟨_, n, hnext, fun (hobserved : assembler.observedEvent = false) _ ↦ ?_⟩
    obtain ⟨hevents, hoffered⟩ := hstreams.quiet hobserved
    refine ⟨hevents, hoffered, ?_⟩
    show some (error, n) = some (normalizeAfterEvent error assembler.observedEvent, n)
    rw [hobserved]
    rfl
  · dsimp only
    split
    · exact ⟨_, n, hnext, fun (h : true = false) ↦ absurd h (by simp)⟩
    · rename_i assembler' hpush
      have hpushed := hstreams.push hlimits hpush
      rw [Option.toList_none, List.append_nil] at hpushed
      exact ⟨_, n, hpushed, hnext⟩
    · -- The delta is offered, and then the runner runs.
      rename_i progress assembler' hpush
      have hpushed := hstreams.push hlimits hpush
      refine (retryMonitor driver request turnDeadline base).wp_call_bind_of ?_
        fun n' _ hexpected' ↦ ?_
      · rintro newer hnewer
        obtain ⟨newer', hnewer', hcalls, -⟩ := hnext
        obtain rfl : newer' = newer := List.append_cancel_right (hnewer'.symm.trans hnewer)
        show modelCalls newer' ≠ []
        rw [hcalls]
        exact List.cons_ne_nil _ _
      · obtain ⟨m', hm', hle', -, -, -, hoffer⟩ := Underway.cons hnext hexpected' rfl
        replace hoffer := hoffer.mono fun n'' (h : n'' = n') ↦ Nat.le_of_eq h.symm
        exact (retryMonitor _ _ _ _).wp_uses_bind (fun _ ho ↦ underway_stable ho) hawait hoffer
          fun _ t₂ ht₂ ↦ ⟨_, n', hpushed, ht₂⟩
  · exact ⟨_, n, hnext, .of_generated⟩
  · exact (retryMonitor _ _ _ _).wp_uses_bind (fun _ ho ↦ underway_stable ho) hawait hnext
      fun _ t₁ ht₁ ↦ ⟨_, n, hstreams, ht₁⟩

/-- One attempt, begun where the checks allow it. -/
theorem underway_runAttempt {awaiter : Action Unit}
    (hawait : awaiter.Uses fun o : Op ↦ o.apart = true) (hlimits : driver.limits.Caps)
    (context : ModelCallContext) (hbounded : calls.length < driver.retryPolicy.maxAttempts)
    (hretries : Retries driver.retryPolicy.baseDelay now calls)
    (ht : Underway driver turnDeadline base deadline calls
      (fun n ↦ now ≤ n ∧ n < deadline.instant) t) :
    (retryMonitor driver request turnDeadline base).wp
      (driver.runAttempt awaiter request context deadline)
      (.ofReturned (AfterModelCall driver turnDeadline base deadline calls)) t := by
  refine (retryMonitor driver request turnDeadline base).wp_call_bind_of ?_
    fun n made hexpected ↦ ?_
  · rintro newer rfl
    obtain ⟨newer', hnewer, rfl, ⟨last, hlast, hnow, hlt⟩, first, hfirst, hfound⟩ := ht
    obtain rfl : newer' = newer := List.append_cancel_right hnewer.symm
    exact ⟨rfl, rfl, hbounded, last, hlast, Retries.mono hretries hnow, first, deadline, hfirst,
      hfound, hlt⟩
  · -- The call is made at the instant of the check.
    have hstart : Underway driver turnDeadline base deadline
        (⟨driver.model, request, n, [], [], none⟩ :: calls) (n ≤ ·)
        (⟨.startModel driver.model request { context with deadline := deadline.instant },
          n, made⟩ ::
          t) := by
      obtain ⟨newer, rfl, rfl, -, first, hfirst, hfound⟩ := ht
      refine ⟨_ :: newer, rfl, rfl, ⟨_, rfl, Nat.le_refl n⟩, first, ?_, hfound⟩
      rw [List.getLast?_cons, hfirst]
      rfl
    cases made with
    | false =>
      have hgenerated : (ModelCall.mk driver.model request n [] [] none).Fails
          ⟨generatedError .panicked (observedDelivery false), false, none⟩ n := .of_generated
      exact ⟨_, n, hstart, hgenerated⟩
    | true =>
      refine (retryMonitor driver request turnDeadline base).wp_bind_of
        (underway_start hawait rfl rfl hstart) fun started t₁ ht₁ ↦ ?_
      refine (retryMonitor driver request turnDeadline base).wp_bind_of
        (Q := AfterModelCall driver turnDeadline base deadline calls) ?_ fun result t₂ ht₂ ↦ ?_
      · cases started with
        | error failure => exact ht₁
        | ok =>
          refine (retryMonitor driver request turnDeadline base).wp_iterate
            (fun assembler t' ↦ ∃ call now, call.Streams request.tools driver.limits assembler ∧
              Underway driver turnDeadline base deadline (call :: calls) (now ≤ ·) t')
            ⟨_, n, .new rfl rfl rfl _ _, ht₁⟩ ?_
          rintro assembler t' ⟨call, now', hstreams, ht'⟩
          exact underway_pollEvent hawait hlimits hstreams ht'
      · obtain ⟨call, now', ht₂, hends⟩ := ht₂
        exact (retryMonitor _ _ _ _).wp_stable_bind (underway_stable rfl) ht₂
          fun _ t₃ ht₃ ↦ ⟨call, now', ht₃, hends⟩

/-- One round of the attempts. -/
theorem underway_attemptRound {awaiter : Action Unit}
    (hawait : awaiter.Uses fun o : Op ↦ o.apart = true) (hlimits : driver.limits.Caps)
    (context : ModelCallContext) (hbounded : calls.length < driver.retryPolicy.maxAttempts)
    (hretries : Retries driver.retryPolicy.baseDelay now calls)
    (ht : Underway driver turnDeadline base deadline calls (now ≤ ·) t) :
    (retryMonitor driver request turnDeadline base).wp
      (driver.attemptRound awaiter request context deadline calls.length)
      (.ofReturned fun x t' ↦ x.elim
        (fun attempt ↦ ∃ calls now, calls.length = attempt ∧
          calls.length < driver.retryPolicy.maxAttempts ∧
          Retries driver.retryPolicy.baseDelay now calls ∧
          Underway driver turnDeadline base deadline calls (now ≤ ·) t')
        fun result ↦ ∀ response, result = .ok response →
          ∃ newer call older, t' = newer ++ base ∧ modelCalls newer = call :: older ∧
            call.Yields response) t := by
  refine (retryMonitor driver request turnDeadline base).wp_bind_of (underway_precheck ht)
    fun checked t₁ ht₁ ↦ ?_
  cases checked with
  | error failure => exact fun _ h ↦ absurd h (by simp)
  | ok =>
  refine (retryMonitor driver request turnDeadline base).wp_bind_of
    (underway_runAttempt hawait hlimits context hbounded hretries (ht₁ rfl)) ?_
  rintro result t₂ ⟨call, now', ht₂, hends⟩
  cases result with
  | ok response =>
    rintro response' h
    obtain rfl := Except.ok.inj h
    obtain ⟨newer, rfl, hcalls, -⟩ := ht₂
    exact ⟨newer, call, calls, rfl, hcalls, hends⟩
  | error failure =>
    refine (retryMonitor driver request turnDeadline base).wp_bind_of
      (underway_evaluateRetry driver.retryPolicy calls.length failure deadline.instant ht₂) ?_
    rintro delay t₃ ⟨ht₃, hretry⟩
    cases delay with
    | none => exact fun _ h ↦ absurd h (by simp)
    | some delay =>
      obtain ⟨hattempt, hobserved, hdelivery, retryAfter, hhint, hbound, hle⟩ := hretry delay rfl
      obtain ⟨hevents, hoffered, hreported⟩ := hends hobserved hdelivery
      refine (retryMonitor driver request turnDeadline base).wp_bind_of
        (underway_waitForRetry hawait delay failure.error ht₃) ?_
      rintro waited t₄ hwaited
      cases waited with
      | error failure => exact fun _ h ↦ absurd h (by simp)
      | ok =>
        -- The wait is over: the call that failed may be retried.
        refine ⟨call :: calls, now' + delay, rfl, hattempt, ?_, hwaited rfl⟩
        exact ⟨hevents, hoffered, failure.error, now', retryAfter, hreported, hdelivery, hhint,
          hbound,
          Nat.add_le_add_left hle _⟩

/-- The driver. -/
theorem underway_runDetailed {awaiter : Action Unit}
    (hawait : awaiter.Uses fun o : Op ↦ o.apart = true) (hlimits : driver.limits.Caps)
    (hattempts : 0 < driver.retryPolicy.maxAttempts) (context : ModelCallContext) :
    (retryMonitor driver request context.deadline base).wp
      (driver.runDetailed awaiter request context)
      (.ofReturned fun result t' ↦ ∀ response, result = .ok response →
        ∃ newer call older, t' = newer ++ base ∧ modelCalls newer = call :: older ∧
          call.Yields response) base := by
  refine (retryMonitor driver request context.deadline base).wp_call_bind_of
    (fun _ _ ↦ trivial) fun n found hexpected ↦ ?_
  have htimely : found = effectiveDeadlineFrom n context.deadline driver.modelCallTimeout :=
    (hexpected [] rfl).2.1
  cases found with
  | none => exact fun _ h ↦ absurd h (by simp)
  | some deadline =>
    have ht₁ : Underway driver context.deadline base deadline [] (n ≤ ·)
        (⟨.effectiveDeadline context.deadline driver.modelCallTimeout, n, some deadline⟩ :: base) :=
      ⟨[_], rfl, rfl, ⟨_, rfl, Nat.le_refl n⟩, n, rfl, htimely.symm⟩
    -- The call is under way, with its deadline and no attempt.
    refine (retryMonitor driver request context.deadline base).wp_bind_of (underway_precheck ht₁)
      fun checked t₂ ht₂ ↦ ?_
    cases checked with
    | error failure => exact fun _ h ↦ absurd h (by simp)
    | ok =>
      dsimp only
      split
      · exact fun _ h ↦ absurd h (by simp)
      · -- The attempts made so far are as many as the round says, and each followed the policy.
        refine (retryMonitor driver request context.deadline base).wp_iterate
          (fun attempt t' ↦ ∃ calls now, calls.length = attempt ∧
            calls.length < driver.retryPolicy.maxAttempts ∧
            Retries driver.retryPolicy.baseDelay now calls ∧
            Underway driver context.deadline base deadline calls (now ≤ ·) t')
          ⟨[], n, rfl, hattempts, trivial, (ht₂ rfl).mono fun _ h ↦ h.1⟩ ?_
        rintro _ t₃ ⟨calls, now, rfl, hbounded, hretries, ht₃⟩
        exact underway_attemptRound hawait hlimits context hbounded hretries ht₃

/-- Retries are safe, in every run of the driver of a snapshot under options that were accepted,
whatever the adapter does. The model is started at most as often as the options allow, always with
the same request and before the effective deadline. It is started again only after an attempt
without events failed with an error by which nothing was delivered and it may be retried, and after
the delay. What was offered comes from the last attempt, and adds up to the text of the response. -/
theorem retry_safe (ctx : LoopCtx) (validatedAt : Nat)
    (hoptions : ctx.options.validate validatedAt = true) (snapshot : ExecutionConfig)
    (awaiter : Action Unit) (hawait : awaiter.Uses fun o : Op ↦ o.apart = true)
    (request : ModelRequest) (context : ModelCallContext) (w : World) :
    let driver := modelDriver ctx snapshot
    let run := machine.exec (driver.runDetailed awaiter request context) w
    ∃ trace, run.2.trace = trace ++ w.trace ∧ Careful driver request context.deadline trace ∧
      ∀ response, run.1 = .returned (.ok response) → ∀ ch : Stream.Channel,
        (ch.deltas (offeredIn trace)).flatMap BoundedText.asStr = ch.textIn response := by
  intro driver run
  have hlimits : driver.limits.Caps :=
    LoopLimits.caps_of_validate (LoopOptions.limits_of_validate hoptions)
  have hattempts : 0 < driver.retryPolicy.maxAttempts := LoopOptions.attempts_of_validate hoptions
  have hrun : ∀ t, (retryMonitor driver request context.deadline w.trace).run t = t :=
    Monitor.history_run _ _
  have hestablished := (retryMonitor driver request context.deadline w.trace).exec_sound machine
    (honours_retry driver request context.deadline w.trace)
    (driver.runDetailed awaiter request context) (w := w)
    ⟨[], rfl, fun _ h ↦ absurd h (by simp)⟩ (accepts_base _ _ _ _) (by
      rw [hrun]
      exact underway_runDetailed hawait hlimits hattempts context)
  obtain ⟨⟨trace, htrace, -⟩, haccepts, -⟩ := id hestablished
  -- The trace since the call is what the monitor accepted above its base.
  have hcareful : Careful driver request context.deadline trace := by
    have hsplit : (retryMonitor driver request context.deadline w.trace).Accepts
        (trace ++ w.trace) := by
      rw [← htrace]
      exact haccepts
    exact careful_of_accepts hsplit
  refine ⟨trace, htrace, hcareful, fun response hresponse ch ↦ ?_⟩
  -- A response was yielded by the last attempt, and only that one offered anything.
  have hyields := Monitor.Establishes.of_returned _ _ hestablished hresponse
  rw [hrun] at hyields
  obtain ⟨newer, call, older, hnewer, hcalls, hcall⟩ := hyields response rfl
  obtain rfl : newer = trace := List.append_cancel_right (hnewer.symm.trans htrace)
  rw [hcareful.offered, hcalls]
  exact hcall ch

end

namespace Backoff

/-- The model refuses the first attempt and answers the second, which comes a second later. -/
def retried : List Turn :=
  List.replicate 6 ({} : Turn) ++ [{ reply := .start (.error refused) }] ++
    List.replicate 3 ({} : Turn) ++ [{ elapsed := fromSecs 1 }] ++ List.replicate 3 ({} : Turn) ++
    [{ reply := .start (.ok ()) },
      { reply := .stream (some (.ok (.textDelta ⟨"well".toList, by decide⟩))) }] ++
    List.replicate 6 ({} : Turn) ++
    [{ reply := .stream (some (.ok (.finish .stop))) }, { reply := .stream none }, ({} : Turn)]

/-- The configuration. -/
def config : ExecutionConfig :=
  ⟨driver.model, driver.descriptor, .auto, ⟨[], []⟩, none, ⟨4⟩, by decide⟩

/-- A run of the driver that retries. -/
def retriedRun : Outcome (Except ModelDriverFailure ModelResponse) × World :=
  machine.exec ((modelDriver ctx config).runDetailed (drainProgress ctx 0) ⟨[], [], .default, .auto⟩
    ⟨ctx.id, 0, fromSecs 3600⟩) (.start ctx.id options [] 0 retried)

end Backoff

open Backoff in
/-- Of the two calls of a run the first is refused and the second one's text is in the response. -/
theorem retry_safe_backoff : ∃ response, retriedRun.1 = .returned (.ok response) ∧
    (modelCalls retriedRun.2.trace).length = 2 ∧
    Careful (modelDriver ctx config) ⟨[], [], .default, .auto⟩ (fromSecs 3600) retriedRun.2.trace ∧
    (Stream.Channel.text.deltas (offeredIn retriedRun.2.trace)).flatMap BoundedText.asStr =
      Stream.Channel.text.textIn response := by
  have hok : retriedRun.1.value?.map (fun result ↦ result.toBool) = some true := by decide +kernel
  have hcalls : (modelCalls retriedRun.2.trace).length = 2 := by decide +kernel
  obtain ⟨result, hvalue, hresult⟩ := Option.map_eq_some_iff.mp hok
  have hreturned := Outcome.value?_eq_some.mp hvalue
  cases result with
  | error failure => exact absurd hresult (by simp [Except.toBool])
  | ok response =>
    obtain ⟨trace, htrace, hcareful, htext⟩ := retry_safe ctx 0 (by decide) config
      (drainProgress ctx 0) (apart_drainProgress ctx 0) _ _ _
    obtain rfl : retriedRun.2.trace = trace := htrace.trans (List.append_nil trace)
    exact ⟨response, hreturned, hcalls, hcareful, htext response hreturned .text⟩

end MinicoreRuntime
