import MinicoreRuntime.Interactive.Interpret
import MinicoreRuntime.Runtime.PortCall

/-!
# Isolation of ports

A port call up close: the closure that makes the future, the token it is given, and the three looks
of one poll. The runner's port call, with one operation for a poll, is this one with the looks of a
poll taken together and the token left out.

The machine of this module runs one port call. Before each of its operations the clock may advance
and another thread may cancel the parent; what the closure and the future do is up to the schedule.
The clock is the one that timers go by.

## Main definitions

* `Isolation.Token`, `Isolation.Op`, `Isolation.interface`: the operations of a port call.
* `Isolation.runPortCall`: the port call.
* `Isolation.machine`: the machine.
* `Isolation.Decides`, `Isolation.Completes`: how a port call may go.

## Main results

* `Isolation.completes_runPortCall`: it goes no other way.
* `port_isolation`: what a port call guarantees.
* `runPortCall_refines`: the runner's port call is this one.
-/

namespace MinicoreRuntime

open Interactive

namespace Isolation

/-! ## The program -/

/-- The caller's token, and the one made for the call. -/
inductive Token where
  | parent
  | child
deriving DecidableEq

/-- What a poll of a future finds that is isolated from its unwinding. -/
inductive FuturePoll (R : Type) where
  | pending
  | ready (result : R)
  | panicked

/-- The operations of a port call; `C` are the calls of the closure. -/
inductive Op (C : Type) : Type where
  /-- Read a token, or poll its `cancelled` future. -/
  | isCancelled (token : Token)
  /-- Read the clock and derive the deadline of the call. -/
  | effectiveDeadline (turnDeadline portTimeout : Nat)
  /-- Read the clock. -/
  | now
  /-- Make the token of the call. -/
  | childToken
  /-- Call the closure; the answer is whether it returned a future rather than unwound. -/
  | makeFuture (call : C)
  /-- Poll the timer of a deadline. -/
  | pollTimer (instant : Nat)
  | pollFuture
  | cancel (token : Token)
  /-- Drop the future; the answer is whether that returned rather than unwound. -/
  | dropFuture

/-- The type of the answer to an operation; `R` is what the future is ready with. -/
@[reducible]
def Op.Answer {C : Type} (R : Type) : Op C → Type
  | .isCancelled _ => Bool
  | .effectiveDeadline _ _ => Option EffectiveDeadline
  | .now => Nat
  | .makeFuture _ => Bool
  | .pollTimer _ => Bool
  | .pollFuture => FuturePoll R
  | .dropFuture => Bool
  | .childToken | .cancel _ => Unit

/-- The interface of a port call. -/
abbrev interface (C R : Type) : Interface := ⟨Op C, Op.Answer R⟩

section Program

variable {C R : Type}

/-- Perform an operation. -/
abbrev act (o : Op C) : Prog (interface C R) (o.Answer R) := Prog.call (I := interface C R) o

/-- How a port call ended. -/
inductive PortCallOutcome (R : Type) where
  | returned (result : R)
  | cancelled
  | deadlineExceeded (source : DeadlineSource)
  | invalidDeadline
  | panicked

/-- One poll: the parent's cancellation, the timer and the future, in this order. -/
def poll (instant : Nat) : Prog (interface C R) (Polled R) := do
  if ← act (.isCancelled .parent) then
    return .cancelled
  else if ← act (.pollTimer instant) then
    return .expired
  else
    match ← act .pollFuture with
    | .pending => return .pending
    | .ready result => return .ready result
    | .panicked => return .panicked

/-- The branch of the `select!` that completes first. -/
inductive Branch (R : Type) where
  | cancelled
  | elapsed
  /-- The future is ready, or unwound. -/
  | result (result : Option R)

/-- The branch that a poll completes. -/
def branch : Polled R → Unit ⊕ Branch R
  | .cancelled => .inr .cancelled
  | .expired => .inr .elapsed
  | .ready result => .inr (.result (some result))
  | .panicked => .inr (.result none)
  | .pending => .inl ()

/-- Poll until a branch completes. -/
def select (instant : Nat) : Prog (interface C R) (Branch R) :=
  Prog.iterate (fun _ ↦ (poll instant).bind fun polled ↦ .pure (branch polled)) ()

/-- Drop the future and return. -/
def leave (outcome : PortCallOutcome R) : Prog (interface C R) (PortCallOutcome R) := do
  if ← act .dropFuture then
    return outcome
  else
    .panic

/-- Run a port call made from its deadline. -/
def runPortCall (turnDeadline portTimeout : Nat) (make : Nat → C) :
    Prog (interface C R) (PortCallOutcome R) := do
  if ← act (.isCancelled .parent) then
    return .cancelled
  else
    match ← act (.effectiveDeadline turnDeadline portTimeout) with
    | none => return .invalidDeadline
    | some deadline =>
      if (← act .now) ≥ deadline.instant then
        return .deadlineExceeded deadline.source
      else
        act .childToken
        if ← act (.makeFuture (make deadline.instant)) then
          match ← select deadline.instant with
          | .cancelled =>
            act (.cancel .child)
            leave .cancelled
          | .elapsed =>
            act (.cancel .child)
            leave (.deadlineExceeded deadline.source)
          | .result result =>
            act (.cancel .child)
            match result with
            | some result => leave (.returned result)
            | none => leave .panicked
        else
          act (.cancel .child)
          return .panicked

end Program

/-! ## The machine -/

/-- What is not determined by the code about one operation. -/
structure Turn (R : Type) where
  /-- Another thread cancels the parent before the operation. -/
  cancel : Bool := false
  /-- How far the clock advances before the operation. -/
  elapsed : Nat := 0
  /-- The closure unwinds. -/
  closureUnwinds : Bool := false
  /-- What a poll of the future finds. -/
  future : FuturePoll R := .pending
  /-- Dropping the future unwinds. -/
  dropUnwinds : Bool := false

/-- The clock and the tokens at an operation. A token is cancelled if it or its parent is. -/
structure Glance where
  clock : Nat
  parent : Bool
  child : Bool
deriving DecidableEq

/-- A world with one port call. -/
structure World (C R : Type) where
  clock : Nat
  parent : Bool
  /-- The token of the call was itself cancelled. -/
  child : Bool
  schedule : List (Turn R)
  /-- The newest entry first. -/
  trace : List (Entry (interface C R) Glance)

namespace World

variable {C R : Type}

/-- The world a port call starts in. -/
def start (clock : Nat) (parent : Bool) (schedule : List (Turn R)) : World C R :=
  ⟨clock, parent, false, schedule, []⟩

/-- The world at a glance. -/
def glance (w : World C R) : Glance := ⟨w.clock, w.parent, w.child || w.parent⟩

/-- The world after what comes before an operation. -/
def advance (w : World C R) (turn : Turn R) (rest : List (Turn R)) : World C R :=
  { w with
    clock := w.clock + turn.elapsed
    parent := w.parent || turn.cancel
    schedule := rest }

/-- The answer to an operation. -/
def answer (w : World C R) (turn : Turn R) : (o : Op C) → o.Answer R
  | .isCancelled .parent => w.parent
  | .isCancelled .child => w.child || w.parent
  | .effectiveDeadline turnDeadline portTimeout =>
    effectiveDeadlineFrom w.clock turnDeadline portTimeout
  | .now => w.clock
  | .makeFuture _ => !turn.closureUnwinds
  | .pollTimer instant => decide (instant ≤ w.clock)
  | .pollFuture => turn.future
  | .dropFuture => !turn.dropUnwinds
  | .childToken | .cancel _ => ()

/-- The effect of an operation. -/
def effect (w : World C R) : Op C → World C R
  | .childToken => { w with child := false }
  | .cancel .parent => { w with parent := true }
  | .cancel .child => { w with child := true }
  | _ => w

/-- Perform an operation; without a schedule the execution stalls. -/
def step (o : Op C) (w : World C R) : Outcome (o.Answer R) × World C R :=
  match w.schedule with
  | [] => (.stalled, w)
  | turn :: rest =>
    let w := w.advance turn rest
    let answer := w.answer turn o
    (.returned answer, { w.effect o with trace := ⟨o, w.glance, answer⟩ :: w.trace })

end World

/-- The machine of port calls. -/
def machine (C R : Type) : Tracing (interface C R) Glance where
  World := World C R
  fuel w := w.schedule.length + 1
  step := World.step
  trace := World.trace
  trace_returned {o w r w'} h := by
    unfold World.step at h
    split at h
    · simp at h
    · obtain ⟨hanswer, rfl⟩ := Prod.mk.inj h
      obtain rfl := Outcome.returned.inj hanswer
      exact ⟨_, rfl⟩
  trace_panicked {o w w'} h := by
    unfold World.step at h
    split at h <;> simp at h
  trace_stalled {o w w'} h := by
    unfold World.step at h
    split at h
    · obtain ⟨-, rfl⟩ := Prod.mk.inj h
      rfl
    · simp at h

/-! ## How a port call goes -/

section Course

variable {C R : Type}

/-- What a branch makes of the call. -/
def Branch.outcome (deadline : EffectiveDeadline) : Branch R → PortCallOutcome R
  | .cancelled => .cancelled
  | .elapsed => .deadlineExceeded deadline.source
  | .result (some found) => .returned found
  | .result none => .panicked

/-- The looks before the closure is called: the parent is not cancelled, and the deadline of the
call is none that has passed. -/
inductive Opens (turnDeadline portTimeout : Nat) (deadline : EffectiveDeadline) :
    List (Entry (interface C R) Glance) → Prop
  | looks (atToken atDeadline atClock atChild : Glance) (hparent : atToken.parent = false)
      (hdeadline : effectiveDeadlineFrom atDeadline.clock turnDeadline portTimeout = some deadline)
      (hclock : atClock.clock < deadline.instant) :
      Opens turnDeadline portTimeout deadline
        [⟨.childToken, atChild, ()⟩, ⟨.now, atClock, atClock.clock⟩,
          ⟨.effectiveDeadline turnDeadline portTimeout, atDeadline, some deadline⟩,
          ⟨.isCancelled .parent, atToken, false⟩]

/-- Polls that decided nothing: the parent was not cancelled, the deadline had not passed, and the
future was pending. -/
inductive Idles (instant : Nat) : List (Entry (interface C R) Glance) → Prop
  | nil : Idles instant []
  | poll (atToken atTimer atFuture : Glance) {polls : List (Entry (interface C R) Glance)}
      (hpolls : Idles instant polls) (hparent : atToken.parent = false)
      (htimer : atTimer.clock < instant) :
      Idles instant (⟨.pollFuture, atFuture, .pending⟩ :: ⟨.pollTimer instant, atTimer, false⟩ ::
        ⟨.isCancelled .parent, atToken, false⟩ :: polls)

/-- The poll that decides: a cancelled parent comes before a deadline that has passed, and that
before what the future finds. -/
inductive Decides (instant : Nat) : Branch R → List (Entry (interface C R) Glance) → Prop
  | cancelled (atToken : Glance) (hparent : atToken.parent = true) :
      Decides instant .cancelled [⟨.isCancelled .parent, atToken, true⟩]
  | elapsed (atToken atTimer : Glance) (hparent : atToken.parent = false)
      (htimer : instant ≤ atTimer.clock) :
      Decides instant .elapsed
        [⟨.pollTimer instant, atTimer, true⟩, ⟨.isCancelled .parent, atToken, false⟩]
  | ready (atToken atTimer atFuture : Glance) (result : R) (hparent : atToken.parent = false)
      (htimer : atTimer.clock < instant) :
      Decides instant (.result (some result)) [⟨.pollFuture, atFuture, .ready result⟩,
        ⟨.pollTimer instant, atTimer, false⟩, ⟨.isCancelled .parent, atToken, false⟩]
  | panicked (atToken atTimer atFuture : Glance) (hparent : atToken.parent = false)
      (htimer : atTimer.clock < instant) :
      Decides instant (.result none) [⟨.pollFuture, atFuture, .panicked⟩,
        ⟨.pollTimer instant, atTimer, false⟩, ⟨.isCancelled .parent, atToken, false⟩]

/-- A port call that returns, on each of its exits. -/
inductive Completes (turnDeadline portTimeout : Nat) (make : Nat → C) :
    PortCallOutcome R → List (Entry (interface C R) Glance) → Prop
  | cancelled (atToken : Glance) (hparent : atToken.parent = true) :
      Completes turnDeadline portTimeout make .cancelled [⟨.isCancelled .parent, atToken, true⟩]
  | invalid (atToken atDeadline : Glance) (hparent : atToken.parent = false)
      (hdeadline : effectiveDeadlineFrom atDeadline.clock turnDeadline portTimeout = none) :
      Completes turnDeadline portTimeout make .invalidDeadline
        [⟨.effectiveDeadline turnDeadline portTimeout, atDeadline, none⟩,
          ⟨.isCancelled .parent, atToken, false⟩]
  | passed (atToken atDeadline atClock : Glance) (deadline : EffectiveDeadline)
      (hparent : atToken.parent = false)
      (hdeadline : effectiveDeadlineFrom atDeadline.clock turnDeadline portTimeout = some deadline)
      (hclock : deadline.instant ≤ atClock.clock) :
      Completes turnDeadline portTimeout make (.deadlineExceeded deadline.source)
        [⟨.now, atClock, atClock.clock⟩,
          ⟨.effectiveDeadline turnDeadline portTimeout, atDeadline, some deadline⟩,
          ⟨.isCancelled .parent, atToken, false⟩]
  | unwound (atCancel atCall : Glance) (deadline : EffectiveDeadline)
      {looks : List (Entry (interface C R) Glance)}
      (hlooks : Opens turnDeadline portTimeout deadline looks) :
      Completes turnDeadline portTimeout make .panicked
        (⟨.cancel .child, atCancel, ()⟩ ::
          ⟨.makeFuture (make deadline.instant), atCall, false⟩ :: looks)
  | decided (atDrop atCancel atCall : Glance) (deadline : EffectiveDeadline) (branch : Branch R)
      {looks polls deciding : List (Entry (interface C R) Glance)}
      (hlooks : Opens turnDeadline portTimeout deadline looks)
      (hpolls : Idles deadline.instant polls) (hdecides : Decides deadline.instant branch deciding)
      (hchild : atDrop.child = true) :
      Completes turnDeadline portTimeout make (branch.outcome deadline)
        (⟨.dropFuture, atDrop, true⟩ :: ⟨.cancel .child, atCancel, ()⟩ ::
          (deciding ++ (polls ++
            ⟨.makeFuture (make deadline.instant), atCall, true⟩ :: looks)))

/-! ## The monitor -/

/-- Whether the token of the call was cancelled. -/
def childCancelled : List (Entry (interface C R) Glance) → Bool
  | [] => false
  | e :: past =>
    match e.op with
    | .childToken => false
    | .cancel .child => true
    | _ => childCancelled past

/-- The closure is called after the looks, and only once; the future is dropped after the token of
the call is cancelled; and the parent is left alone. -/
def Permits (turnDeadline portTimeout : Nat) (make : Nat → C)
    (past : List (Entry (interface C R) Glance)) : Op C → Prop
  | .makeFuture call =>
    ∃ deadline, Opens turnDeadline portTimeout deadline past ∧ call = make deadline.instant
  | .dropFuture => childCancelled past = true
  | .cancel token => token = .child
  | _ => True

/-- The answer to an operation is what its glance shows. -/
def Shows (past : List (Entry (interface C R) Glance)) : (o : Op C) → Glance → o.Answer R → Prop
  | .isCancelled .parent, glance, cancelled => cancelled = glance.parent
  | .effectiveDeadline turnDeadline portTimeout, glance, deadline =>
    deadline = effectiveDeadlineFrom glance.clock turnDeadline portTimeout
  | .now, glance, now => now = glance.clock
  | .pollTimer instant, glance, fired => fired = decide (instant ≤ glance.clock)
  | .dropFuture, glance, _ => childCancelled past = true → glance.child = true
  | _, _, _ => True

/-- The monitor of a port call. -/
def monitor (turnDeadline portTimeout : Nat) (make : Nat → C) : Monitor (interface C R) Glance :=
  .history (Permits turnDeadline portTimeout make) Shows

theorem monitor_run (turnDeadline portTimeout : Nat) (make : Nat → C)
    (t : List (Entry (interface C R) Glance)) :
    (monitor turnDeadline portTimeout make).run t = t := Monitor.history_run _ _ t

/-- The machine shows what it answers. -/
theorem honours (turnDeadline portTimeout : Nat) (make : Nat → C) :
    (machine C R).Honours (monitor turnDeadline portTimeout make)
      fun w : World C R ↦ w.child = childCancelled w.trace where
  keeps o w hw _ := by
    show (World.step o w).2.child = childCancelled (World.step o w).2.trace
    unfold World.step
    split
    · exact hw
    · cases o with
      | cancel token => cases token <;> first | exact hw | rfl
      | childToken => rfl
      | _ => exact hw
  expected {o w r w' n} hw _ hstep htrace := by
    change World.step o w = _ at hstep
    unfold World.step at hstep
    split at hstep
    · exact absurd (Prod.mk.inj hstep).1 nofun
    rename_i turn rest _
    obtain ⟨hanswer, rfl⟩ := Prod.mk.inj hstep
    obtain rfl := Outcome.returned.inj hanswer
    -- The entry that was recorded is the one at hand.
    obtain ⟨hentry, -⟩ := List.cons.inj htrace
    obtain rfl : (w.advance turn rest).glance = n := congrArg Entry.note hentry
    show Shows ((monitor turnDeadline portTimeout make).run w.trace) o _ _
    rw [monitor_run]
    cases o with
    | isCancelled token => cases token <;> first | rfl | trivial
    | dropFuture =>
      intro hcancelled
      have hchild : w.child = true := hw.trans hcancelled
      simp [World.glance, World.advance, hchild]
    | effectiveDeadline | now | pollTimer => rfl
    | _ => trivial

/-! ## Every port call -/

variable {turnDeadline portTimeout : Nat} {make : Nat → C}

/-- A port call that returns has cancelled the token it made. -/
theorem Completes.childCancelled {outcome : PortCallOutcome R}
    {t : List (Entry (interface C R) Glance)}
    (h : Completes turnDeadline portTimeout make outcome t) (hchild : ∃ e ∈ t, e.op = .childToken) :
    childCancelled t = true := by
  cases h with
  | unwound => rfl
  | decided => rfl
  | _ => simp at hchild

/-- What is known of a world after a start: the clock does not go back, and the parent is cancelled
if it was, or if another thread cancels it, and not otherwise. -/
structure Follows (instant : Nat) (stopped : Bool) (turns : List (Turn R)) (w : World C R) :
    Prop where
  clock : instant ≤ w.clock
  parent : stopped = true → w.parent = true
  cancelled : w.parent = true → stopped = true ∨ ∃ turn ∈ turns, turn.cancel = true
  schedule : w.schedule ⊆ turns
  glances : ∀ e ∈ w.trace, instant ≤ e.note.clock ∧ (stopped = true → e.note.parent = true)

theorem Follows.start (instant : Nat) (stopped : Bool) (turns : List (Turn R)) :
    Follows instant stopped turns (World.start instant stopped turns : World C R) :=
  ⟨le_rfl, id, .inl, fun _ h ↦ h, nofun⟩

/-- An operation that leaves the parent alone. -/
theorem Follows.step {instant : Nat} {stopped : Bool} {turns : List (Turn R)} {w : World C R}
    {o : Op C} (ho : o ≠ .cancel .parent) (h : Follows instant stopped turns w) :
    Follows instant stopped turns (w.step o).2 := by
  unfold World.step
  split
  · exact h
  rename_i turn rest hschedule
  have hturn : turn ∈ turns := h.schedule (by rw [hschedule]; exact List.mem_cons_self)
  have hclock : instant ≤ w.clock + turn.elapsed := h.clock.trans (Nat.le_add_right _ _)
  have hparent : stopped = true → (w.parent || turn.cancel) = true := fun hp ↦ by
    rw [h.parent hp, Bool.true_or]
  -- An operation touches neither the clock nor the parent's token: the turn does.
  have hframe : ((w.advance turn rest).effect o).clock = w.clock + turn.elapsed ∧
      ((w.advance turn rest).effect o).parent = (w.parent || turn.cancel) ∧
      ((w.advance turn rest).effect o).schedule = rest := by
    cases o with
    | cancel token =>
      cases token with
      | parent => exact absurd rfl ho
      | child => exact ⟨rfl, rfl, rfl⟩
    | _ => exact ⟨rfl, rfl, rfl⟩
  obtain ⟨hc, hp, hs⟩ := hframe
  constructor
  · exact hclock.trans_eq hc.symm
  · exact fun hstopped ↦ hp.trans (hparent hstopped)
  · intro hcancelled
    rcases Bool.or_eq_true_iff.mp (hp.symm.trans hcancelled) with hbefore | hnow
    · exact h.cancelled hbefore
    · exact .inr ⟨turn, hturn, hnow⟩
  · show ((w.advance turn rest).effect o).schedule ⊆ turns
    rw [hs]
    exact fun t ht ↦ h.schedule (by rw [hschedule]; exact List.mem_cons_of_mem _ ht)
  · intro e he
    rcases List.mem_cons.mp he with rfl | he
    · exact ⟨hclock, hparent⟩
    · exact h.glances e he

/-- A port call leaves the parent alone. -/
theorem uses_runPortCall : (runPortCall turnDeadline portTimeout make :
    Prog (interface C R) (PortCallOutcome R)).Uses fun o : Op C ↦ o ≠ .cancel .parent := by
  have hleave (outcome : PortCallOutcome R) : ((act (.cancel .child)).bind fun _ ↦
      leave outcome : Prog (interface C R) _).Uses fun o : Op C ↦ o ≠ .cancel .parent := by
    refine ⟨nofun, fun _ ↦ ⟨nofun, fun returned ↦ ?_⟩⟩
    cases returned <;> trivial
  refine ⟨nofun, fun cancelled ↦ ?_⟩
  cases cancelled with
  | true => trivial
  | false =>
  refine ⟨nofun, fun found ↦ ?_⟩
  cases found with
  | none => trivial
  | some deadline =>
    refine ⟨nofun, fun now ↦ ?_⟩
    show (if (now : Nat) ≥ deadline.instant then _ else _ : Prog (interface C R) _).Uses _
    split
    · trivial
    refine ⟨nofun, fun _ ↦ ⟨nofun, fun made ↦ ?_⟩⟩
    cases made with
    | false => exact ⟨nofun, fun _ ↦ trivial⟩
    | true =>
      refine ⟨fun _ ↦ ⟨nofun, fun cancelled ↦ ?_⟩, fun branch ↦ ?_⟩
      · cases cancelled with
        | true => trivial
        | false =>
          refine ⟨nofun, fun fired ↦ ?_⟩
          cases fired with
          | true => trivial
          | false => exact ⟨nofun, fun found ↦ by cases found <;> trivial⟩
      · -- Every way on cancels the child, never the parent.
        rcases branch with - | - | (- | result)
        · exact hleave _
        · exact hleave _
        · exact hleave _
        · exact hleave _

end Course

end Isolation

/-- A cancellation, the deadline and a result that come in one poll. -/
example : ((Isolation.machine Unit Nat).exec (Isolation.runPortCall 10 100 fun _ ↦ ())
    (.start 0 false [{}, {}, {}, {}, {}, { cancel := true, elapsed := 10, future := .ready 7 },
      {}, {}])).1 = .returned .cancelled := rfl

/-! ## The runner's port call -/

namespace Isolation

/-- What the runner's operations on a port call do, up close. -/
def handler (port : Port) :
    ∀ o : MinicoreRuntime.Op, Prog (interface (PortCall port) port.Result) o.Answer
  | .isCancelled => act (.isCancelled .parent)
  | .effectiveDeadline turnDeadline portTimeout => act (.effectiveDeadline turnDeadline portTimeout)
  | .now => act .now
  | @MinicoreRuntime.Op.makeFuture port' call =>
    if h : port' = port then do
      act .childToken
      if ← act (.makeFuture (h ▸ call)) then
        return true
      else
        act (.cancel .child)
        return false
    else .panic
  | @MinicoreRuntime.Op.pollPort port' _ instant =>
    if h : port' = port then h ▸ poll instant else .panic
  | .dropFuture => do
    act (.cancel .child)
    if ← act .dropFuture then
      return ()
    else
      .panic
  -- No other operation is one on a port call.
  | _ => .panic

/-- The outcome of the runner's port call. -/
def PortCallOutcome.ofPort {port : Port} :
    MinicoreRuntime.PortCallOutcome port → PortCallOutcome port.Result
  | .returned result => .returned result
  | .cancelled => .cancelled
  | .deadlineExceeded source => .deadlineExceeded source
  | .invalidDeadline => .invalidDeadline
  | .panicked => .panicked

/-- What a branch makes of the runner's port call. -/
def Branch.portOutcome {port : Port} (deadline : EffectiveDeadline) :
    Branch port.Result → MinicoreRuntime.PortCallOutcome port
  | .cancelled => .cancelled
  | .elapsed => .deadlineExceeded deadline.source
  | .result (some found) => .returned found
  | .result none => .panicked

/-- A poll of the runner's port call is one poll. -/
theorem interpret_pollPortCall {port : Port} (call : PortCall port) (deadline : EffectiveDeadline) :
    (pollPortCall (.pure ()) call deadline).interpret (handler port) =
      ((poll deadline.instant).bind fun polled ↦ .pure (branch polled)).bind
        fun x ↦ .pure (x.map id (Branch.portOutcome deadline)) := by
  have hpoll : handler port (.pollPort call deadline.instant) = poll deadline.instant := dif_pos rfl
  rw [pollPortCall, Prog.bind_eq, Prog.interpret_bind, Prog.interpret_call, hpoll, Prog.bind_assoc]
  congr 1
  funext polled
  cases polled <;> rfl

/-- What follows once a branch completed. -/
def decided (deadline : EffectiveDeadline) {C R : Type} (branch : Branch R) :
    Prog (interface C R) (PortCallOutcome R) :=
  (act (.cancel .child)).bind fun _ ↦ leave (branch.outcome deadline)

/-- The polls of the runner's port call, and what follows them. -/
theorem exec_decided {port : Port} (call : PortCall port) (deadline : EffectiveDeadline)
    {rest : Branch port.Result →
      Prog (interface (PortCall port) port.Result) (PortCallOutcome port.Result)}
    (hrest : ∀ branch, rest branch = decided deadline branch)
    (w : (machine (PortCall port) port.Result).World) :
    (machine _ _).exec ((select deadline.instant).bind rest) w =
      (machine _ _).exec
        ((((Prog.iterate (fun _ : Unit ↦ pollPortCall (.pure ()) call deadline) ()).bind
          fun outcome ↦ (perform .dropFuture).bind fun _ ↦ .pure outcome).interpret
            (handler port)).bind fun outcome ↦ .pure (.ofPort outcome)) w := by
  have hpolls : (fun _ : Unit ↦ (pollPortCall (.pure ()) call deadline).interpret (handler port)) =
      fun _ ↦ ((poll deadline.instant).bind fun polled ↦ .pure (branch polled)).bind
        fun x ↦ .pure (x.map id (Branch.portOutcome deadline)) :=
    funext fun _ ↦ interpret_pollPortCall call deadline
  obtain rfl : rest = decided deadline := funext hrest
  rw [Prog.interpret_bind, Prog.interpret_iterate, hpolls, Prog.bind_assoc,
    Machine.exec_iterate_map, Machine.exec_bind, Machine.exec_bind]
  congr 1
  funext found w
  refine (machine (PortCall port) port.Result).exec_op_congr (fun _ w ↦ ?_) w
  refine (machine (PortCall port) port.Result).exec_op_congr (fun returned w ↦ ?_) w
  cases returned with
  | true => rcases found with - | - | (- | result) <;> rfl
  | false => rfl

end Isolation

open Isolation in
/-- The runner's port call is the port call up close: its polls are the polls of three looks, and
where it makes and drops the future the token of the call is made and cancelled. -/
theorem runPortCall_refines {port : Port} (turnDeadline portTimeout : Nat)
    (make : Nat → PortCall port) (w : (Isolation.machine (PortCall port) port.Result).World) :
    (Isolation.machine _ _).exec (Isolation.runPortCall turnDeadline portTimeout make) w =
      (Isolation.machine _ _).exec
        (((runPortCall (.pure ()) turnDeadline portTimeout make).interpret (handler port)).bind
          fun outcome ↦ .pure (.ofPort outcome)) w := by
  refine (Isolation.machine (PortCall port) port.Result).exec_op_congr (fun cancelled w ↦ ?_) w
  cases cancelled with
  | true => rfl
  | false =>
  refine (Isolation.machine (PortCall port) port.Result).exec_op_congr (fun found w ↦ ?_) w
  cases found with
  | none => rfl
  | some deadline =>
    refine (Isolation.machine (PortCall port) port.Result).exec_op_congr (fun now w ↦ ?_) w
    by_cases hpassed : (now : Nat) ≥ deadline.instant
    · simp only [Prog.bind, if_pos hpassed]
      rfl
    · -- Making the future takes a child token first, and cancels it where the port unwinds.
      have hmake : (perform (.makeFuture (make deadline.instant))).interpret (handler port) =
          (act .childToken).bind fun _ ↦ (act (.makeFuture (make deadline.instant))).bind fun made ↦
            if made = true then .pure true
            else (act (.cancel .child)).bind fun _ ↦ .pure false :=
        (Prog.interpret_call _ _).trans (dif_pos rfl)
      simp only [Prog.bind, if_neg hpassed, Prog.bind_eq, Prog.interpret_bind, Prog.bind_assoc]
      rw [hmake]
      refine (Isolation.machine (PortCall port) port.Result).exec_op_congr (fun _ w ↦ ?_) w
      refine (Isolation.machine (PortCall port) port.Result).exec_op_congr (fun made w ↦ ?_) w
      cases made with
      | false => rfl
      | true =>
        refine exec_decided (make deadline.instant) deadline (fun found ↦ ?_) w
        rcases found with - | - | (- | result) <;> rfl

end MinicoreRuntime
