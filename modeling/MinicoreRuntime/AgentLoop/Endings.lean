import MinicoreRuntime.AgentLoop.Stopping
import MinicoreRuntime.Runtime.Cancellation

/-!
# Why a loop ends

A loop of requests that ends as cancelled was told that the token is cancelled, and one that ends at
a deadline found the clock past it. The report is made of this and of what the seal finds; the seal
is the first thing that happens at the end.

## Main definitions

* `tellsCancelled`, `Expired`: what a runner knows of the token and of the deadline.
* `Knows`: what it knows where its loop of requests ends.
* `Decides`: what the seal and that knowledge make of the outcome.
* `requestLoop`: the runner up to the end of its loop of requests.

## Main results

* `knows_traversal`: the calls of a round end it for a reason that is known.
* `decided_runLoopInner`: the report of a runner was decided by the seal.
-/

namespace MinicoreRuntime

open Interactive

/-! ## What a runner knows -/

/-- An answer by which the runner knows that the token is cancelled. -/
def tellsCancelled : Entry interface Nat → Bool
  | ⟨.isCancelled, _, true⟩ => true
  | ⟨.pollPort _ _, _, .cancelled⟩ | ⟨.pollInteraction _ _, _, .cancelled⟩ => true
  | _ => false

/-- The deadline of a call that counts as the loop's. -/
def setsTurn : Entry interface Nat → Bool
  | ⟨.effectiveDeadline _ _, _, some deadline⟩ => deadline.source = .turn
  | _ => false

/-- The clock was found past the deadline of the loop; or there is none, and a call had a deadline
that counts as the loop's. -/
def Expired (ctx : LoopCtx) (t : List (Entry interface Nat)) : Prop :=
  (∃ instant, ctx.options.deadline = some instant ∧ ∃ e ∈ t, instant ≤ e.note) ∨
    ctx.options.deadline = none ∧ ∃ e ∈ t, setsTurn e = true

theorem Expired.cons {ctx : LoopCtx} {t : List (Entry interface Nat)} (h : Expired ctx t)
    (e : Entry interface Nat) : Expired ctx (e :: t) := by
  rcases h with ⟨instant, hdeadline, e', he', hle⟩ | ⟨hnone, e', he', hturn⟩
  · exact .inl ⟨instant, hdeadline, e', List.mem_cons_of_mem _ he', hle⟩
  · exact .inr ⟨hnone, e', List.mem_cons_of_mem _ he', hturn⟩

/-- The operations of the end of a loop: the seal, the report and the token. -/
def Op.terminal : Op → Bool
  | .sealState | .sealCancelled _ | .cancelToken | .sendReport _ => true
  | _ => false

/-- The end has not begun. -/
def Ongoing (t : List (Entry interface Nat)) : Prop := ∀ e ∈ t, e.op.terminal = false

/-- The end has not begun, and the reason for it is known. -/
structure Knows (ctx : LoopCtx) (path : FailPath) (t : List (Entry interface Nat)) : Prop where
  ongoing : Ongoing t
  cancelled : path = .cancelled → ∃ e ∈ t, tellsCancelled e = true
  deadline : path = .deadline → Expired ctx t

/-- What the outcome is, by what the seal found and what was known before. -/
structure Decides (ctx : LoopCtx) (finish : FinishSeal) (older : List (Entry interface Nat))
    (outcome : LoopOutcome) : Prop where
  notSealed : finish ≠ .alreadyFinished
  prior : ∀ source, finish = .cancelledPrior source → outcome = .cancelled source.reason
  cancelled : finish = .clean → ∀ source : CancelSource, outcome = .cancelled source.reason →
    ∃ e ∈ older, tellsCancelled e = true
  deadline : finish = .clean → outcome = .cancelled .deadline → Expired ctx older

/-- The seal was the first operation of the end. -/
def SealedAfter (finish : FinishSeal) (older t : List (Entry interface Nat)) : Prop :=
  Ongoing older ∧ ∃ newer n, t = newer ++ ⟨.sealState, n, finish⟩ :: older

/-- A report says what the seal decided. -/
def Decided (ctx : LoopCtx) (t : List (Entry interface Nat)) (report : LoopReport) : Prop :=
  ∃ finish older, SealedAfter finish older t ∧ Decides ctx finish older report.outcome

/-- The monitor of the end of a loop. What is reported was decided, or it is one of the reports that
are made where the runner unwound. -/
def endMonitor (ctx : LoopCtx) (rescue : LoopReport → Prop) : Monitor interface Nat :=
  .history (fun past o ↦ match o with
    | .sendReport report => Decided ctx past report ∨ rescue report
    | _ => True) fun _ o n r ↦ o.Timely n r ∧ ∃ state, AnswerOrdered state o r

section

variable {ctx : LoopCtx} {rescue : LoopReport → Prop} {t : List (Entry interface Nat)}
  {path : FailPath} {α β : Type}

theorem Ongoing.cons (h : Ongoing t) {o : Op} (ho : o.terminal = false) (n : Nat) (r : o.Answer) :
    Ongoing (⟨o, n, r⟩ :: t) := List.forall_mem_cons.mpr ⟨ho, h⟩

theorem Knows.cons (h : Knows ctx path t) {o : Op} (ho : o.terminal = false) (n : Nat)
    (r : o.Answer) : Knows ctx path (⟨o, n, r⟩ :: t) := by
  refine ⟨h.ongoing.cons ho n r, fun hpath ↦ ?_, fun hpath ↦ (h.deadline hpath).cons _⟩
  obtain ⟨e, he, htells⟩ := h.cancelled hpath
  exact ⟨e, List.mem_cons_of_mem _ he, htells⟩

/-- Other ends need no reason. -/
theorem Knows.of_ne (h : Ongoing t) (hcancelled : path ≠ .cancelled)
    (hdeadline : path ≠ .deadline) :
    Knows ctx path t :=
  ⟨h, fun heq ↦ absurd heq hcancelled, fun heq ↦ absurd heq hdeadline⟩

/-- The end of a loop that was told that the token is cancelled. -/
theorem Knows.of_told (h : Ongoing t) {o : Op} (ho : o.terminal = false) (n : Nat) (r : o.Answer)
    (htells : tellsCancelled ⟨o, n, r⟩ = true) : Knows ctx .cancelled (⟨o, n, r⟩ :: t) :=
  ⟨h.cons ho n r, fun _ ↦ ⟨_, List.mem_cons_self, htells⟩, fun heq ↦ absurd heq (by simp)⟩

/-- The end of a loop that found the clock past the deadline. -/
theorem Knows.of_expired (h : Ongoing t) (hexpired : Expired ctx t) : Knows ctx .deadline t :=
  ⟨h, fun heq ↦ absurd heq (by simp), fun _ ↦ hexpired⟩

theorem end_allowed {o : Op} (ho : o.terminal = false) : (endMonitor ctx rescue).allowed t o := by
  cases o with
  | sendReport report => exact absurd ho (by simp [Op.terminal])
  | _ => trivial

theorem ongoing_stable {o : Op} (ho : o.terminal = false) :
    (endMonitor ctx rescue).Stable Ongoing o :=
  fun _ ht ↦ ⟨end_allowed ho, fun n r _ ↦ Ongoing.cons ht ho n r⟩

theorem knows_stable {o : Op} (ho : o.terminal = false) :
    (endMonitor ctx rescue).Stable (Knows ctx path) o :=
  fun _ ht ↦ ⟨end_allowed ho, fun n r _ ↦ Knows.cons ht ho n r⟩

/-- The end is not a part of the rounds. -/
theorem Op.terminal_of {o : Op} (h : o.plain = true ∨ o.routine = true) : o.terminal = false := by
  cases o <;> first | rfl | exact absurd h (by simp [Op.plain, Op.routine])

theorem Op.terminal_of_plain {o : Op} (h : o.plain = true) : o.terminal = false :=
  terminal_of (.inl h)

/-! ## The deadline of a call -/

/-- The deadline of a call was found; where it counts as the loop's, it is the loop's, or there is
none. -/
structure Timed (ctx : LoopCtx) (deadline : EffectiveDeadline) (t : List (Entry interface Nat)) :
    Prop where
  ongoing : Ongoing t
  turn : deadline.source = .turn →
    ctx.options.deadline = some deadline.instant ∨
      ctx.options.deadline = none ∧ ∃ e ∈ t, setsTurn e = true

theorem Timed.cons {deadline : EffectiveDeadline} (h : Timed ctx deadline t) {o : Op}
    (ho : o.terminal = false) (n : Nat) (r : o.Answer) : Timed ctx deadline (⟨o, n, r⟩ :: t) := by
  refine ⟨h.ongoing.cons ho n r, fun hsource ↦ ?_⟩
  refine (h.turn hsource).imp_right fun ⟨hnone, e, he, hturn⟩ ↦ ?_
  exact ⟨hnone, e, List.mem_cons_of_mem _ he, hturn⟩

theorem timed_stable {deadline : EffectiveDeadline} {o : Op} (ho : o.terminal = false) :
    (endMonitor ctx rescue).Stable (Timed ctx deadline) o :=
  fun _ ht ↦ ⟨end_allowed ho, fun n r _ ↦ Timed.cons ht ho n r⟩

/-- A deadline that was found. -/
theorem Timed.of_found {deadline : EffectiveDeadline} {turnDeadline timeout n : Nat}
    (h : Ongoing t) (hhorizon : Horizon ctx turnDeadline)
    (hfound : effectiveDeadlineFrom n turnDeadline timeout = some deadline) :
    Timed ctx deadline (⟨.effectiveDeadline turnDeadline timeout, n, some deadline⟩ :: t) := by
  refine ⟨h.cons rfl n _, fun hsource ↦ ?_⟩
  cases hdeadline : ctx.options.deadline with
  | none => exact .inr ⟨rfl, _, List.mem_cons_self, decide_eq_true hsource⟩
  | some instant =>
    rw [(effectiveDeadlineFrom_turn hfound hsource).1, hhorizon instant hdeadline]
    exact .inl rfl

/-- The deadline of a call came, and it counts as the loop's. -/
theorem Timed.expired {deadline : EffectiveDeadline} (h : Timed ctx deadline t)
    (hsource : deadline.source = .turn) {e : Entry interface Nat} (he : e ∈ t)
    (hle : deadline.instant ≤ e.note) : Knows ctx .deadline t := by
  refine .of_expired h.ongoing ?_
  rcases h.turn hsource with hdeadline | hnone
  · exact .inl ⟨_, hdeadline, e, he, hle⟩
  · exact .inr hnone

/-! ## The rounds -/

/-- A port call ends for a reason that is known. -/
theorem knows_runPortCall {port : Port} {awaiter : Action Unit} {turnDeadline timeout : Nat}
    {make : Nat → PortCall port} (hhorizon : Horizon ctx turnDeadline)
    (hawait : awaiter.Uses Op.Plain) (ht : Ongoing t) :
    (endMonitor ctx rescue).wp (runPortCall awaiter turnDeadline timeout make)
      (.ofReturned (AfterPort Ongoing (Knows ctx))) t := by
  have hother {outcome : PortCallOutcome port} (hcancelled : outcome ≠ .cancelled)
      (hdeadline : outcome ≠ .deadlineExceeded .turn) {t' : List (Entry interface Nat)}
      (ht' : Ongoing t') : AfterPort Ongoing (Knows ctx) outcome t' :=
    ⟨ht', fun heq ↦ absurd heq hcancelled, fun heq ↦ absurd heq hdeadline⟩
  -- The deadline came, and if it counts as the loop's that is known.
  have hexceeded {deadline : EffectiveDeadline} {t' : List (Entry interface Nat)}
      (ht' : Timed ctx deadline t') {e : Entry interface Nat} (he : e ∈ t')
      (hle : deadline.instant ≤ e.note) :
      AfterPort Ongoing (Knows ctx) 
        (.deadlineExceeded deadline.source : PortCallOutcome port) t' := by
    refine ⟨ht'.ongoing, fun heq ↦ absurd heq (by simp), fun heq ↦ ?_⟩
    exact ht'.expired (PortCallOutcome.deadlineExceeded.inj heq) he hle
  refine (endMonitor ctx rescue).wp_call_bind_of trivial fun n cancelled _ ↦ ?_
  cases cancelled with
  | true =>
    exact ⟨ht.cons rfl n _, fun _ ↦ .of_told ht rfl n _ rfl, fun heq ↦ absurd heq (by simp)⟩
  | false =>
    refine (endMonitor ctx rescue).wp_call_bind_of trivial fun n' deadline hfound ↦ ?_
    have ht₁ : Ongoing _ := ht.cons (o := .isCancelled) rfl n false
    cases deadline with
    | none => exact hother (by simp) (by simp) (ht₁.cons rfl n' _)
    | some deadline =>
      have ht₂ := Timed.of_found ht₁ hhorizon hfound.1.symm
      refine (endMonitor ctx rescue).wp_call_bind_of trivial fun n₂ now hnow ↦ ?_
      obtain rfl : now = n₂ := hnow.1
      have ht₃ : Timed ctx deadline _ := ht₂.cons (o := .now) rfl now now
      dsimp only
      split
      · rename_i hpassed
        exact hexceeded ht₃ List.mem_cons_self hpassed
      · refine (endMonitor ctx rescue).wp_stable_bind (timed_stable rfl) ht₃ fun made t₄ ht₄ ↦ ?_
        split
        · refine (endMonitor ctx rescue).wp_bind_of (Q := AfterPort Ongoing (Knows ctx)) ?_ ?_
          · refine (endMonitor ctx rescue).wp_iterate (fun _ ↦ Timed ctx deadline) ht₄
              fun _ t₅ ht₅ ↦ ?_
            refine (endMonitor ctx rescue).wp_call_bind_of trivial fun n₅ polled hpolled ↦ ?_
            have ht₆ : Timed ctx deadline _ :=
              ht₅.cons (o := .pollPort (make deadline.instant) deadline.instant) rfl n₅ polled
            cases polled with
            | cancelled =>
              exact ⟨ht₆.ongoing, fun _ ↦ .of_told ht₅.ongoing rfl n₅ _ rfl,
                fun heq ↦ absurd heq (by simp)⟩
            | expired => exact hexceeded ht₆ List.mem_cons_self (hpolled.1 rfl)
            | ready result => exact hother (by simp) (by simp) ht₆.ongoing
            | panicked => exact hother (by simp) (by simp) ht₆.ongoing
            | pending =>
              exact (endMonitor ctx rescue).wp_uses_bind
                (fun _ ho ↦ timed_stable (Op.terminal_of_plain ho))
                hawait ht₆ fun _ t₇ ht₇ ↦ ht₇
          · rintro outcome t₅ ⟨hongoing, hcancelled, hdeadline⟩
            refine (endMonitor ctx rescue).wp_call_bind_of trivial fun n₅ r _ ↦ ?_
            exact ⟨hongoing.cons (o := .dropFuture) rfl n₅ r,
              fun heq ↦ (hcancelled heq).cons (o := .dropFuture) rfl n₅ r,
              fun heq ↦ (hdeadline heq).cons (o := .dropFuture) rfl n₅ r⟩
        · exact hother (by simp) (by simp) ht₄.ongoing

/-! ## The driver -/

/-- What is known where a part of a request of the driver failed because of a deadline. -/
structure Blames (ctx : LoopCtx) (deadline : EffectiveDeadline) (source : Option DeadlineSource)
    (t : List (Entry interface Nat)) : Prop where
  timed : Timed ctx deadline t
  expired : source = some .turn → Knows ctx .deadline t

theorem blames_stable {deadline : EffectiveDeadline} {source : Option DeadlineSource} {o : Op}
    (ho : o.terminal = false) : (endMonitor ctx rescue).Stable (Blames ctx deadline source) o :=
  fun _ ht ↦ ⟨end_allowed ho, fun n r _ ↦
    ⟨ht.timed.cons ho n r, fun hsource ↦ (ht.expired hsource).cons ho n r⟩⟩

theorem Timed.blames {deadline : EffectiveDeadline} (h : Timed ctx deadline t) :
    Blames ctx deadline none t := ⟨h, fun heq ↦ absurd heq (by simp)⟩

/-- A part that failed because its deadline came. -/
theorem Timed.blames_expired {deadline : EffectiveDeadline} (h : Timed ctx deadline t)
    {e : Entry interface Nat} (he : e ∈ t) (hle : deadline.instant ≤ e.note) :
    Blames ctx deadline (some deadline.source) t :=
  ⟨h, fun heq ↦ h.expired (Option.some.inj heq) he hle⟩

/-- The deadline that an attempt failed because of. -/
def attemptSource : Except AttemptFailure α → Option DeadlineSource
  | .error failure => failure.deadlineSource
  | .ok _ => none

/-- The deadline that a request failed because of. -/
def requestSource : Except ModelDriverFailure α → Option DeadlineSource
  | .error failure => failure.deadlineSource
  | .ok _ => none

theorem Blames.afterDriver {deadline : EffectiveDeadline}
    {result : Except ModelDriverFailure ModelResponse}
    (h : Blames ctx deadline (requestSource result) t) :
    AfterDriver Ongoing (Knows ctx) result t := by
  refine ⟨h.timed.ongoing, ?_⟩
  rintro failure rfl hsource
  exact h.expired hsource

variable {awaiter : Action Unit} {deadline : EffectiveDeadline}

/-- The check before a request and before each attempt. -/
theorem blames_precheck (ht : Timed ctx deadline t) :
    (endMonitor ctx rescue).wp (precheck deadline)
      (.ofReturned fun result t' ↦ Blames ctx deadline (requestSource result) t') t := by
  refine (endMonitor ctx rescue).wp_stable_bind (timed_stable rfl) ht fun cancelled t₁ ht₁ ↦ ?_
  split
  · exact ht₁.blames
  · refine (endMonitor ctx rescue).wp_call_bind_of trivial fun n now hnow ↦ ?_
    obtain rfl : now = n := hnow.1
    have ht₂ : Timed ctx deadline _ := ht₁.cons (o := .now) rfl now now
    split
    · rename_i hpassed
      exact ht₂.blames_expired List.mem_cons_self hpassed
    · exact ht₂.blames

/-- What runs while the driver waits, followed by the rest of a program. -/
theorem timed_await (hawait : awaiter.Uses Op.Plain) {f : Unit → Action α}
    {R : α → List (Entry interface Nat) → Prop} (ht : Timed ctx deadline t)
    (hf : ∀ t', Timed ctx deadline t' → (endMonitor ctx rescue).wp (f ()) (.ofReturned R) t') :
    (endMonitor ctx rescue).wp (awaiter.bind f) (.ofReturned R) t :=
  (endMonitor ctx rescue).wp_uses_bind (fun _ ho ↦ timed_stable (Op.terminal_of_plain ho)) hawait ht
    fun _ t' ht' ↦ hf t' ht'

/-- The wait for the start of an attempt. -/
theorem blames_start (hawait : awaiter.Uses Op.Plain) (ht : Timed ctx deadline t) :
    (endMonitor ctx rescue).wp
      (Prog.iterate (fun _ : Unit ↦ ModelDriver.pollStartCall awaiter deadline) ())
      (.ofReturned fun result t' ↦ Blames ctx deadline (attemptSource result) t') t := by
  refine (endMonitor ctx rescue).wp_iterate (fun _ ↦ Timed ctx deadline) ht fun _ t₁ ht₁ ↦ ?_
  refine (endMonitor ctx rescue).wp_call_bind_of trivial fun n polled hpolled ↦ ?_
  have ht₂ : Timed ctx deadline _ := ht₁.cons (o := .pollStart deadline.instant) rfl n polled
  rcases polled with - | - | (error | ok) | - | -
  · exact ht₂.blames
  · exact ht₂.blames_expired List.mem_cons_self (hpolled.1 rfl)
  · exact ht₂.blames
  · exact ht₂.blames
  · exact ht₂.blames
  · exact timed_await hawait ht₂ fun t₃ ht₃ ↦ ht₃

/-- The wait before a retry. -/
theorem blames_waitForRetry (hawait : awaiter.Uses Op.Plain) (delay : Nat) (error : ModelError)
    (ht : Timed ctx deadline t) :
    (endMonitor ctx rescue).wp (waitForRetry awaiter deadline delay error)
      (.ofReturned fun result t' ↦ Blames ctx deadline (requestSource result) t') t := by
  refine (endMonitor ctx rescue).wp_stable_bind (timed_stable rfl) ht fun now t₁ ht₁ ↦ ?_
  split
  · trivial
  rename_i retryAt _
  refine (endMonitor ctx rescue).wp_iterate (fun _ ↦ Timed ctx deadline) ht₁ fun _ t₂ ht₂ ↦ ?_
  refine (endMonitor ctx rescue).wp_call_bind_of trivial fun n polled hpolled ↦ ?_
  have ht₃ : Timed ctx deadline _ :=
    ht₂.cons (o := .pollRetry deadline.instant retryAt) rfl n polled
  cases polled with
  | cancelled => exact ht₃.blames
  | expired => exact ht₃.blames_expired List.mem_cons_self (hpolled.1 rfl)
  | ready => exact ht₃.blames
  | panicked => exact timed_await hawait ht₃ fun t₄ ht₄ ↦ ht₄
  | pending => exact timed_await hawait ht₃ fun t₄ ht₄ ↦ ht₄

variable [SerdeJson]

/-- A poll of the stream of an attempt. -/
theorem blames_pollEvent (hawait : awaiter.Uses Op.Plain) (assembler : Assembler)
    (ht : Timed ctx deadline t) :
    (endMonitor ctx rescue).wp (ModelDriver.pollEvent awaiter deadline assembler)
      (.ofReturned fun x t' ↦ x.elim (fun _ ↦ Timed ctx deadline t')
        fun result ↦ Blames ctx deadline (attemptSource result) t') t := by
  refine (endMonitor ctx rescue).wp_call_bind_of trivial fun n polled hpolled ↦ ?_
  have ht₁ : Timed ctx deadline _ := ht.cons (o := .pollStream deadline.instant) rfl n polled
  rcases polled with - | - | (- | (error | event)) | - | -
  · exact ht₁.blames
  · exact ht₁.blames_expired List.mem_cons_self (hpolled.1 rfl)
  · dsimp only
    split
    · trivial
    · exact ht₁.blames
    · exact ht₁.blames
  · exact ht₁.blames
  · dsimp only
    split
    · exact ht₁.blames
    · exact ht₁
    · refine (endMonitor ctx rescue).wp_stable_bind (timed_stable rfl) ht₁ fun _ t₂ ht₂ ↦ ?_
      exact timed_await hawait ht₂ fun t₃ ht₃ ↦ ht₃
  · exact ht₁.blames
  · exact timed_await hawait ht₁ fun t₂ ht₂ ↦ ht₂

variable (driver : ModelDriver) (request : ModelRequest) (context : ModelCallContext)

/-- One attempt. -/
theorem blames_runAttempt (hawait : awaiter.Uses Op.Plain) (ht : Timed ctx deadline t) :
    (endMonitor ctx rescue).wp (driver.runAttempt awaiter request context deadline)
      (.ofReturned fun result t' ↦ Blames ctx deadline (attemptSource result) t') t := by
  refine (endMonitor ctx rescue).wp_stable_bind (timed_stable rfl) ht fun made t₁ ht₁ ↦ ?_
  split
  · refine (endMonitor ctx rescue).wp_bind_of (blames_start hawait ht₁) fun started t₂ ht₂ ↦ ?_
    refine (endMonitor ctx rescue).wp_bind_of
      (Q := fun result t' ↦ Blames ctx deadline (attemptSource result) t') ?_ fun result t₃ ht₃ ↦ ?_
    · cases started with
      | error failure => exact ht₂
      | ok =>
        exact (endMonitor ctx rescue).wp_iterate (fun _ ↦ Timed ctx deadline) ht₂.timed
          fun assembler t' ht' ↦ blames_pollEvent hawait assembler ht'
    · exact (endMonitor ctx rescue).wp_stable_bind (blames_stable rfl) ht₃ fun _ t₄ ht₄ ↦ ht₄
  · exact ht₁.blames

/-- One round of the attempts. -/
theorem blames_attemptRound (hawait : awaiter.Uses Op.Plain) (attempt : Nat)
    (ht : Timed ctx deadline t) :
    (endMonitor ctx rescue).wp (driver.attemptRound awaiter request context deadline attempt)
      (.ofReturned fun x t' ↦ x.elim (fun _ ↦ Timed ctx deadline t')
        fun result ↦ Blames ctx deadline (requestSource result) t') t := by
  refine (endMonitor ctx rescue).wp_bind_of (blames_precheck ht) ?_
  rintro (failure | ok) t₁ ht₁
  · exact ht₁
  refine (endMonitor ctx rescue).wp_bind_of
    (blames_runAttempt driver request context hawait ht₁.timed) ?_
  rintro (failure | response) t₂ ht₂
  · -- What the attempt failed because of is still known after the policy was asked.
    refine (endMonitor ctx rescue).wp_uses_bind (fun _ ho ↦ blames_stable (Op.terminal_of_plain ho))
      (uses_evaluateRetry (fun _ ho ↦ ho) _ attempt failure deadline.instant) ht₂ ?_
    intro delay t₃ ht₃
    cases delay with
    | none => exact ht₃
    | some delay =>
      refine (endMonitor ctx rescue).wp_bind_of
        (blames_waitForRetry hawait delay failure.error ht₃.timed) ?_
      rintro (failure | ok) t₄ ht₄
      · exact ht₄
      · exact ht₄.timed
  · exact ht₂.timed.blames

/-- A request fails because of the deadline of the loop only where that is known. -/
theorem knows_runDetailed (hhorizon : Horizon ctx context.deadline)
    (hawait : awaiter.Uses Op.Plain) (ht : Ongoing t) :
    (endMonitor ctx rescue).wp (driver.runDetailed awaiter request context)
      (.ofReturned (AfterDriver Ongoing (Knows ctx))) t := by
  refine (endMonitor ctx rescue).wp_call_bind_of trivial fun n deadline hfound ↦ ?_
  cases deadline with
  | none =>
    refine ⟨ht.cons rfl n _, ?_⟩
    rintro failure ⟨⟩ hsource
    exact absurd hsource (by simp [ModelDriverFailure.ordinary])
  -- From here on every failure blames this deadline, or none.
  | some deadline =>
    have ht₁ := Timed.of_found ht hhorizon hfound.1.symm
    refine (endMonitor ctx rescue).wp_bind_of (blames_precheck ht₁) ?_
    rintro (failure | ok) t₂ ht₂
    · exact ht₂.afterDriver
    · dsimp only
      split
      · rename_i error _
        have hordinary : Blames ctx deadline (requestSource (.error (.ordinary error) :
            Except ModelDriverFailure ModelResponse)) t₂ := ht₂.timed.blames
        exact hordinary.afterDriver
      · refine (endMonitor ctx rescue).wp_mono_returned (Q := fun result t' ↦
          Blames ctx deadline (requestSource result) t') ?_ fun result t' ht' ↦ ht'.afterDriver
        exact (endMonitor ctx rescue).wp_iterate (fun _ ↦ Timed ctx deadline) ht₂.timed
          fun attempt t' ht' ↦ blames_attemptRound driver request context hawait attempt ht'

end

/-! ## The loop of requests -/

section

variable {ctx : LoopCtx} {rescue : LoopReport → Prop} {t : List (Entry interface Nat)} {α : Type}

/-- A question to the host ends the loop for a reason that is known. -/
theorem knows_askHost (invocation : ToolInvocation) (kind : InteractionKind) (ht : Ongoing t) :
    (endMonitor ctx rescue).wp (askHost ctx invocation kind)
      (.ofReturned fun answer ↦ Leaves Ongoing (Knows ctx) (answerPath? answer)) t := by
  have hother {path : FailPath} (hcancelled : path ≠ .cancelled) (hdeadline : path ≠ .deadline)
      {t' : List (Entry interface Nat)} (ht' : Ongoing t') : Knows ctx path t' :=
    .of_ne ht' hcancelled hdeadline
  refine (endMonitor _ _).wp_stable_bind (ongoing_stable rfl) ht fun id t₁ ht₁ ↦ ?_
  cases id with
  | none => exact hother (by simp) (by simp) ht₁
  | some id =>
    refine (endMonitor _ _).wp_stable_bind (ongoing_stable rfl) ht₁ fun channel t₂ ht₂ ↦ ?_
    refine (endMonitor _ _).wp_stable_bind (ongoing_stable rfl) ht₂ fun set t₃ ht₃ ↦ ?_
    cases set with
    | false => exact hother (by simp) (by simp) ht₃
    | true =>
      refine (endMonitor _ _).wp_stable_bind (ongoing_stable rfl) ht₃ fun waiting t₄ ht₄ ↦ ?_
      refine wp_stable_publish (ongoing_stable rfl) (ongoing_stable rfl) ht₄ fun t₆ ht₆ ↦ ?_
      refine (endMonitor _ _).wp_stable_bind (ongoing_stable rfl) ht₆ fun _ t₇ ht₇ ↦ ?_
      refine (endMonitor ctx rescue).wp_bind_of
        (Q := fun answer ↦ Leaves Ongoing (Knows ctx) (answerPath? answer)) ?_ ?_
      · -- The wait ends with the token, the deadline or an answer, and knows which.
        refine (endMonitor ctx rescue).wp_iterate (fun _ ↦ Ongoing) ht₇ fun _ t₈ ht₈ ↦ ?_
        refine (endMonitor ctx rescue).wp_call_bind_of trivial fun n polled hpolled ↦ ?_
        have ht₉ : Ongoing _ :=
          ht₈.cons (o := .pollInteraction channel ctx.options.deadline) rfl n polled
        rcases polled with - | - | (- | answer) | - | -
        · exact .of_told ht₈ rfl n _ rfl
        · obtain ⟨instant, hdeadline, hle⟩ := hpolled.1 rfl
          exact .of_expired ht₉ (.inl ⟨instant, hdeadline, _, List.mem_cons_self, hle⟩)
        · exact hother (by simp) (by simp) ht₉
        · exact ht₉
        · exact ht₉
        · exact ht₉
      · -- Nothing after the wait changes why it ended.
        rintro (path | answer) t₈ ht₈
        · exact (endMonitor ctx rescue).wp_stable_bind (J := Knows ctx path) (knows_stable rfl) ht₈
            fun _ t₉ ht₉ ↦ ht₉
        · refine (endMonitor _ _).wp_stable_bind (ongoing_stable rfl) ht₈ fun _ t₉ ht₉ ↦ ?_
          refine (endMonitor _ _).wp_stable_bind (ongoing_stable rfl) ht₉ fun _ t₁₀ ht₁₀ ↦ ?_
          refine (endMonitor _ _).wp_stable_bind (ongoing_stable rfl) ht₁₀ fun running t₁₁ ht₁₁ ↦ ?_
          exact wp_stable_publish (ongoing_stable rfl) (ongoing_stable rfl) ht₁₁
            fun t₁₂ ht₁₂ ↦ ht₁₂

/-- A round that finds the deadline of the loop passed. -/
theorem knows_pastDeadline (ht : Ongoing t) :
    (endMonitor ctx rescue).wp (pastDeadline ctx.options.deadline)
      (.ofReturned fun past t' ↦ Ongoing t' ∧ (past = true → Knows ctx .deadline t')) t := by
  unfold pastDeadline
  split
  · exact ⟨ht, fun heq ↦ absurd heq (by simp)⟩
  · rename_i instant hdeadline
    refine (endMonitor ctx rescue).wp_call_bind_of trivial fun n now hnow ↦ ?_
    obtain rfl : now = n := hnow.1
    have ht₁ : Ongoing _ := ht.cons (o := .now) rfl now now
    refine ⟨ht₁, fun hpassed ↦ .of_expired ht₁ (.inl ⟨instant, hdeadline, ?_⟩)⟩
    exact ⟨_, List.mem_cons_self, of_decide_eq_true hpassed⟩

variable [SerdeJson]

/-- The calls of a round end it for a reason that is known. -/
theorem knows_traversal (ctx : LoopCtx) (rescue : LoopReport → Prop) :
    Traversal (endMonitor ctx rescue) ctx Ongoing (Knows ctx) where
  plain _ ho := ongoing_stable (Op.terminal_of_plain ho)
  plainEnded _ _ ho := knows_stable (Op.terminal_of_plain ho)
  result _ := ongoing_stable rfl
  resultEnded _ _ := knows_stable rfl
  -- The two paths that need a reason are not among these.
  ended path t hpath ht := by
    refine .of_ne ht ?_ ?_
    · rintro rfl
      exact absurd hpath (by simp [FailPath.needsReason])
    · rintro rfl
      exact absurd hpath (by simp [FailPath.needsReason])
  cancelled t n ht _ := .of_told (o := .isCancelled) ht rfl n true rfl
  past _ ht := knows_pastDeadline ht
  port _ _ _ _ _ hhorizon hawait ht := knows_runPortCall hhorizon hawait ht
  driver driver _ request context _ hhorizon hawait ht :=
    knows_runDetailed driver request context hhorizon hawait ht
  ask invocation kind _ ht := knows_askHost invocation kind ht

/-- The runner up to the end of its loop of requests. -/
def requestLoop (ctx : LoopCtx) (request : LoopRequest) : Action Ending := do
  perform (.tryEmit (.started ctx.id))
  perform (.append (.user ⟨ctx.id, .prompt, request.input⟩))
  Prog.iterate (requestRound ctx) (.start request.config)

/-- The runner is its loop of requests, and then the report. -/
theorem runLoopInner_eq (ctx : LoopCtx) (request : LoopRequest) :
    runLoopInner ctx request = (requestLoop ctx request).bind fun ending ↦
      (finishLoop ctx ending).bind fun report ↦
        (dropConfig ending.discardedConfig).bind fun _ ↦
          (perform (.dropConfig ending.locals.config)).bind fun _ ↦ .pure report := rfl

/-- The loop of requests ends for a reason that is known. -/
theorem knows_requestLoop (ctx : LoopCtx) (rescue : LoopReport → Prop) (request : LoopRequest) :
    (endMonitor ctx rescue).wp (requestLoop ctx request)
      (.ofReturned fun ending ↦ Knows ctx ending.path) [] := by
  have ht : Ongoing [] := by simp [Ongoing]
  refine (endMonitor _ _).wp_stable_bind (ongoing_stable rfl) ht fun _ t₁ ht₁ ↦ ?_
  refine (endMonitor _ _).wp_stable_bind (ongoing_stable rfl) ht₁ fun _ t₂ ht₂ ↦ ?_
  refine (knows_traversal ctx rescue).requestRounds
    (fun o ho _ ↦ ongoing_stable (Op.terminal_of (.inr ho))) ?_ ?_ _ ht₂
  · exact fun t ht ↦ .of_ne ht (by simp) (by simp)
  · refine fun t ht ↦ ⟨trivial, fun n r _ ↦ ?_⟩
    exact .of_ne (ht.cons (o := .beginFinal) rfl n r) (by simp) (by simp)

end

/-! ## The report -/

/-- Why an outcome is intended. -/
structure Intends (ctx : LoopCtx) (outcome : LoopOutcome) (t : List (Entry interface Nat)) :
    Prop where
  ongoing : Ongoing t
  cancelled : ∀ source : CancelSource, outcome = .cancelled source.reason →
    ∃ e ∈ t, tellsCancelled e = true
  deadline : outcome = .cancelled .deadline → Expired ctx t

theorem RunState.cancelReason_ne_deadline (state : RunState) : state.cancelReason ≠ .deadline := by
  cases state with
  | cancelled source => exact source.reason_ne_deadline
  | none => simp [cancelReason]
  | finished => simp [cancelReason]

section

variable {ctx : LoopCtx} {rescue : LoopReport → Prop} {older t : List (Entry interface Nat)}
  {path : FailPath} {finish : FinishSeal}

/-- An outcome that is no cancellation needs no reason. -/
theorem Intends.of_ne {outcome : LoopOutcome} (h : Ongoing t)
    (houtcome : ∀ reason, outcome ≠ .cancelled reason) : Intends ctx outcome t :=
  ⟨h, fun _ heq ↦ absurd heq (houtcome _), fun heq ↦ absurd heq (houtcome _)⟩

/-- The outcome that a path stands for is intended for the reason the loop ended. -/
theorem intends_outcomeFor (h : Knows ctx path t) :
    (endMonitor ctx rescue).wp (outcomeFor path) (.ofReturned (Intends ctx)) t := by
  cases path with
  | cancelled =>
    refine (endMonitor ctx rescue).wp_call_bind_of trivial fun n reason hreason ↦ ?_
    -- No state of the control plane has the deadline as its reason.
    obtain ⟨state, rfl⟩ := hreason.2
    refine ⟨h.ongoing.cons (o := .cancelReason) rfl n _, fun _ _ ↦ ?_, fun heq ↦ ?_⟩
    · obtain ⟨e, he, htells⟩ := h.cancelled rfl
      exact ⟨e, List.mem_cons_of_mem _ he, htells⟩
    · exact absurd (LoopOutcome.cancelled.inj heq) state.cancelReason_ne_deadline
  | deadline =>
    refine ⟨h.ongoing, fun source heq ↦ ?_, fun _ ↦ h.deadline rfl⟩
    exact absurd (LoopOutcome.cancelled.inj heq).symm source.reason_ne_deadline
  | model error => exact .of_ne h.ongoing (by simp [modelFailure])
  | invalidModelResponse error => exact .of_ne h.ongoing (by simp [modelFailure])
  | completed => exact .of_ne h.ongoing (by simp)
  | _ => exact .of_ne h.ongoing (by simp [failure])

/-- Nothing that follows the seal undoes it. -/
theorem sealed_stable {o : Op} (ho : ∀ report, o ≠ .sendReport report) :
    (endMonitor ctx rescue).Stable (SealedAfter finish older) o := by
  rintro t ⟨hongoing, newer, n, rfl⟩
  refine ⟨?_, fun m r _ ↦ ⟨hongoing, ⟨o, m, r⟩ :: newer, n, rfl⟩⟩
  cases o with
  | sendReport report => exact absurd rfl (ho report)
  | _ => trivial

/-- What drops a configuration after the seal. -/
theorem sealed_dropConfig (config : Option ExecutionConfig) (ht : SealedAfter finish older t) :
    (endMonitor ctx rescue).wp (dropConfig config)
      (.ofReturned fun _ t' ↦ SealedAfter finish older t') t := by
  have huses : (dropConfig config).Uses Op.Plain := uses_dropConfig (fun _ ho ↦ ho) config
  refine (endMonitor ctx rescue).wp_mono ((endMonitor ctx rescue).wp_of_uses (fun t' o ho ↦
    sealed_stable ?_ t') huses ht) (fun _ _ h ↦ h) fun _ _ ↦ trivial
  rintro report rfl
  exact absurd ho (by simp [Op.Plain, Op.plain])

/-- A report with the outcome that was decided. -/
theorem sealed_deliverReport {ending : Ending} {revision : Nat} {outcome : LoopOutcome}
    {discarded : Option ExecutionConfig} (ht : SealedAfter finish older t)
    (hdecides : Decides ctx finish older outcome) :
    (endMonitor ctx rescue).wp (deliverReport ctx ending revision outcome discarded)
      (.ofReturned fun _ t' ↦ SealedAfter finish older t') t := by
  refine (endMonitor _ _).wp_stable_bind (sealed_stable (by simp)) ht fun appended t₁ ht₁ ↦ ?_
  -- The last states are published before the report.
  have huses : (publishFinalStates ctx (ending.locals.lastIssuedRequestIndex.getD 0) revision).Uses
      fun o : Op ↦ ∀ report, o ≠ .sendReport report :=
    ⟨by simp, fun _ ↦ ⟨by simp, fun _ ↦ ⟨by simp, fun _ ↦ ⟨by simp, fun _ ↦ ⟨by simp, fun _ ↦
      ⟨by simp, fun _ ↦ trivial⟩⟩⟩⟩⟩⟩
  refine (endMonitor ctx rescue).wp_uses_bind (fun _ ho ↦ sealed_stable ho) huses ht₁
    fun _ t₂ ht₂ ↦ ?_
  refine (endMonitor ctx rescue).wp_call_bind_of (.inl ⟨finish, older, ht₂, hdecides⟩) ?_
  intro n r _
  have ht₃ : SealedAfter finish older (⟨.sendReport _, n, r⟩ :: t₂) := by
    obtain ⟨hongoing, newer, m, rfl⟩ := ht₂
    exact ⟨hongoing, _ :: newer, m, rfl⟩
  refine (endMonitor _ _).wp_stable_bind (sealed_stable (by simp)) ht₃ fun _ t₄ ht₄ ↦ ?_
  refine (endMonitor _ _).wp_stable_bind (sealed_stable (by simp)) ht₄ fun _ t₅ ht₅ ↦ ?_
  exact (endMonitor ctx rescue).wp_bind_of (sealed_dropConfig discarded ht₅) fun _ _ h ↦ h

/-- Sealing is the first operation of the end. -/
theorem sealed_finishOnce (ht : Ongoing t) :
    (endMonitor ctx rescue).wp finishOnce (.ofReturned fun x t' ↦ SealedAfter x.1 t t') t := by
  refine (endMonitor ctx rescue).wp_call_bind_of trivial fun n finish _ ↦ ?_
  have ht₁ : SealedAfter finish t (⟨.sealState, n, finish⟩ :: t) := ⟨ht, [], n, rfl⟩
  cases finish with
  | clean => exact (endMonitor _ _).wp_stable_bind (sealed_stable (by simp)) ht₁ fun _ _ h ↦ h
  | alreadyFinished =>
    exact (endMonitor _ _).wp_stable_bind (sealed_stable (by simp)) ht₁ fun _ _ h ↦ h
  | cancelledPrior source =>
    refine (endMonitor _ _).wp_stable_bind (sealed_stable (by simp)) ht₁ fun _ _ ht₂ ↦ ?_
    exact (endMonitor _ _).wp_stable_bind (sealed_stable (by simp)) ht₂ fun _ _ h ↦ h

/-- The seal decides what is reported. -/
theorem decided_finishLoop {ending : Ending} (h : Knows ctx ending.path t) :
    (endMonitor ctx rescue).wp (finishLoop ctx ending)
      (.ofReturned fun _ t' ↦ ∃ finish older, SealedAfter finish older t') t := by
  refine (endMonitor ctx rescue).wp_stable_bind (knows_stable rfl) h fun revision t₁ ht₁ ↦ ?_
  refine (endMonitor ctx rescue).wp_bind_of (intends_outcomeFor ht₁) fun intended t₂ ht₂ ↦ ?_
  refine (endMonitor ctx rescue).wp_bind_of (sealed_finishOnce ht₂.ongoing) ?_
  rintro ⟨finish, discarded⟩ t₃ ht₃
  cases finish with
  | clean =>
    refine (endMonitor ctx rescue).wp_mono_returned (sealed_deliverReport ht₃ ?_) ?_
    · exact ⟨by simp, fun _ heq ↦ absurd heq (by simp), fun _ ↦ ht₂.cancelled, fun _ ↦ ht₂.deadline⟩
    · exact fun _ t' ht' ↦ ⟨_, _, ht'⟩
  -- The seal found the cancellation, which replaces what was intended.
  | cancelledPrior source =>
    refine (endMonitor ctx rescue).wp_mono_returned (sealed_deliverReport ht₃ ?_) ?_
    · refine ⟨by simp, fun source' heq ↦ ?_, fun heq ↦ absurd heq (by simp),
        fun heq ↦ absurd heq (by simp)⟩
      obtain rfl := FinishSeal.cancelledPrior.inj heq
      rfl
    · exact fun _ t' ht' ↦ ⟨_, _, ht'⟩
  | alreadyFinished =>
    refine (endMonitor _ _).wp_stable_bind (sealed_stable (by simp)) ht₃ fun report t₄ ht₄ ↦ ?_
    cases report with
    | none => trivial
    | some report => exact ⟨_, _, ht₄⟩

/-- What a runner reports was decided by its seal. -/
theorem decided_runLoopInner [SerdeJson] (ctx : LoopCtx) (rescue : LoopReport → Prop)
    (request : LoopRequest) :
    (endMonitor ctx rescue).wp (runLoopInner ctx request) (.ofReturned fun _ _ ↦ True) [] := by
  rw [runLoopInner_eq]
  refine (endMonitor ctx rescue).wp_bind_of (knows_requestLoop ctx rescue request) ?_
  intro ending t ht
  refine (endMonitor ctx rescue).wp_bind_of (decided_finishLoop ht) ?_
  rintro report t₁ ⟨finish, older, ht₁⟩
  refine (endMonitor ctx rescue).wp_bind_of (sealed_dropConfig _ ht₁) fun _ t₂ ht₂ ↦ ?_
  exact (endMonitor _ _).wp_stable_bind (sealed_stable (by simp)) ht₂ fun _ _ _ ↦ trivial

/-- The machine answers what the end relies on. -/
theorem honours_end (ctx : LoopCtx) (rescue : LoopReport → Prop) :
    machine.Honours (endMonitor ctx rescue) fun _ ↦ True :=
  World.Kept.honours ⟨fun _ _ _ ↦ trivial, fun _ _ _ _ _ ↦ trivial,
    fun _ _ _ _ _ _ _ ↦ trivial⟩ fun _ _ _ _ _ _ hanswer ↦
      ⟨World.answer_timely hanswer, _, World.answer_ordered hanswer⟩

end

end MinicoreRuntime
