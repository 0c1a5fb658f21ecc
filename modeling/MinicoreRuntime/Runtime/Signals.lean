import MinicoreRuntime.Runtime.Log

/-!
# The clock and the token

What the log of a world says about the passing of time and about the cancellation token, and what
the runner is told of them. The clock of a world never goes back, the token stays cancelled once
it is, and answers tell the truth about both.

## Main definitions

* `TokenCancelled`, `clockAfter`: the token and the clock after a log.
* `Op.Timely`, `Op.Tells`: what an answer says about the clock and about the token.

## Main results

* `signalled_kept`: the log of every world describes its clock and its token.
* `clockAfter_le`: the clock never goes back.
-/

namespace MinicoreRuntime

open Interactive

/-- A record that cancels the token. -/
def Record.cancelsToken : Record → Bool
  | .host (.cancelReturned _ _ result) => result
  | .host _ => false
  | .runner entry =>
    match entry.op with
    | .cancelToken => true
    | _ => false

/-- The token is cancelled. -/
def TokenCancelled (log : List Record) : Prop := ∃ e ∈ log, e.cancelsToken = true

@[simp]
theorem tokenCancelled_cons (e : Record) (older : List Record) :
    TokenCancelled (e :: older) ↔ e.cancelsToken = true ∨ TokenCancelled older := by
  simp [TokenCancelled]

theorem TokenCancelled.append {older : List Record} (h : TokenCancelled older)
    (newer : List Record) : TokenCancelled (newer ++ older) := by
  obtain ⟨e, he, hcancels⟩ := h
  exact ⟨e, List.mem_append_right _ he, hcancels⟩

/-- The instant of the last operation of the runner, in a log that starts at `start`. -/
def clockAfter (start : Nat) : List Record → Nat
  | [] => start
  | .runner entry :: _ => entry.note
  | .host _ :: older => clockAfter start older

/-- What an answer at the instant `n` says about the clock. -/
def Op.Timely : (o : Op) → Nat → o.Answer → Prop
  | .now, n, t => t = n
  | .effectiveDeadline turnDeadline timeout, n, deadline =>
    deadline = effectiveDeadlineFrom n turnDeadline timeout
  | .pollPort _ deadline, n, polled => polled = .expired → deadline ≤ n
  | .pollStart deadline, n, polled => polled = .expired → deadline ≤ n
  | .pollStream deadline, n, polled => polled = .expired → deadline ≤ n
  | .pollRetry deadline _, n, polled => polled = .expired → deadline ≤ n
  | .pollInteraction _ deadline, n, polled =>
    polled = .expired → ∃ instant, deadline = some instant ∧ instant ≤ n
  | _, _, _ => True

/-- What an answer says about whether the token is cancelled. -/
def Op.Tells (cancelled : Prop) : (o : Op) → o.Answer → Prop
  | .isCancelled, answer => answer = true ↔ cancelled
  | .pollPort _ _, polled => polled = .cancelled → cancelled
  | .pollInteraction _ _, polled => polled = .cancelled → cancelled
  | _, _ => True

/-- What is true of a record after the older ones. -/
def Told (start : Nat) (older : List Record) : Record → Prop
  | .host _ => True
  | .runner entry => clockAfter start older ≤ entry.note ∧
      entry.op.Timely entry.note entry.answer ∧
      entry.op.Tells (TokenCancelled older) entry.answer

/-- The log describes the clock and the token. -/
structure Signalled (start : Nat) (w : World) : Prop where
  token : w.control.cancel = true ↔ TokenCancelled w.log
  clock : clockAfter start w.log ≤ w.clock
  told : Justified (Told start) w.log

theorem Signalled.start (id : LoopId) (options : LoopOptions) (base : List HistoryItem)
    (clock : Nat) (schedule : List Turn) :
    Signalled clock (.start id options base clock schedule) where
  token := by simp [World.start, LoopControl.new, TokenCancelled]
  clock := Nat.le_refl _
  told := trivial

/-! ## What answers say -/

/-- A poll expires only where the deadline has come. -/
theorem World.select_expired {α : Type} {w : World} {turn : Turn} {deadline : Option Nat}
    {other : Polled α} (hother : other ≠ .expired)
    (h : w.select turn deadline other = .expired) :
    ∃ instant, deadline = some instant ∧ instant ≤ w.clock := by
  unfold select at h
  split at h
  · exact absurd h (by simp)
  · split at h
    · rename_i hdeadline
      cases deadline with
      | none => exact absurd hdeadline (by simp)
      | some instant =>
        have hle : instant + turn.lag ≤ w.clock := by simpa using hdeadline
        exact ⟨instant, rfl, Nat.le_trans (Nat.le_add_right _ _) hle⟩
    · exact absurd h hother

/-- A poll is cancelled only where the token is, or what is polled is. -/
theorem World.select_cancelled {α : Type} {w : World} {turn : Turn} {deadline : Option Nat}
    {other : Polled α} (hother : other ≠ .cancelled)
    (h : w.select turn deadline other = .cancelled) : w.control.cancel = true := by
  unfold select at h
  split at h
  · assumption
  · split at h
    · exact absurd h (by simp)
    · exact absurd h hother

theorem World.portReply_ne (turn : Turn) (port : Port) :
    portReply turn port ≠ .expired ∧ portReply turn port ≠ .cancelled := by
  unfold portReply
  split
  · split <;> simp
  · simp
  · simp

theorem World.startReply_ne (turn : Turn) : startReply turn ≠ .expired := by
  unfold startReply
  split <;> simp

theorem World.streamReply_ne (turn : Turn) : streamReply turn ≠ .expired := by
  unfold streamReply
  split <;> simp

theorem World.channelReply_ne (w : World) (channel : Nat) :
    w.channelReply channel ≠ .expired ∧ w.channelReply channel ≠ .cancelled := by
  unfold channelReply
  split
  · simp
  · split <;> simp

/-- Answers tell the truth about the clock. -/
theorem World.answer_timely {w : World} {turn : Turn} {o : Op} {r : o.Answer}
    (h : w.answer turn o = some r) : o.Timely w.clock r := by
  have hsome : ∀ {α : Type} {other r : Polled α} {instant : Nat}, other ≠ .expired →
      some (w.select turn (some instant) other) = some r → r = .expired → instant ≤ w.clock := by
    intro α other r instant hother h hr
    obtain ⟨instant', heq, hle⟩ := select_expired hother ((Option.some.inj h).trans hr)
    obtain rfl := Option.some.inj heq
    exact hle
  cases o with
  | now => exact (Option.some.inj h).symm
  | effectiveDeadline turnDeadline timeout => exact (Option.some.inj h).symm
  | pollPort call deadline => exact hsome (portReply_ne turn _).1 h
  | pollStart deadline => exact hsome (startReply_ne turn) h
  | pollStream deadline => exact hsome (streamReply_ne turn) h
  | pollRetry deadline retryAt => exact hsome (by split <;> simp) h
  | pollInteraction channel deadline =>
    exact fun hr ↦ select_expired (channelReply_ne w channel).1 ((Option.some.inj h).trans hr)
  | _ => trivial

/-- Answers tell the truth about the token. -/
theorem World.answer_tells {w : World} {turn : Turn} {o : Op} {r : o.Answer} {cancelled : Prop}
    (hcancelled : w.control.cancel = true ↔ cancelled) (h : w.answer turn o = some r) :
    o.Tells cancelled r := by
  cases o with
  | isCancelled =>
    obtain rfl := Option.some.inj h
    exact hcancelled
  | pollPort call deadline =>
    exact fun hr ↦ hcancelled.mp
      (select_cancelled (portReply_ne turn _).2 ((Option.some.inj h).trans hr))
  | pollInteraction channel deadline =>
    exact fun hr ↦ hcancelled.mp
      (select_cancelled (channelReply_ne w channel).2 ((Option.some.inj h).trans hr))
  | _ => trivial

/-- What an operation does to the token. -/
theorem World.effect_cancel (w : World) (o : Op) (n : Nat) (r : o.Answer) :
    (w.effect o).control.cancel =
      (w.control.cancel || Record.cancelsToken (.runner ⟨o, n, r⟩)) := by
  -- The token is cancelled by its own operation only.
  cases o with
  | cancelToken => exact (Bool.or_true _).symm
  | sealState =>
    refine Eq.trans ?_ (Bool.or_false _).symm
    show w.control.sealState.2.cancel = _
    rw [LoopControl.sealState]
    split <;> rfl
  | sealCancelled source =>
    refine Eq.trans ?_ (Bool.or_false _).symm
    show (w.control.sealCancelled source).cancel = _
    rw [LoopControl.sealCancelled]
    split <;> rfl
  | setInteraction slot =>
    refine Eq.trans ?_ (Bool.or_false _).symm
    show (w.control.setInteraction slot).2.cancel = _
    rw [LoopControl.setInteraction]
    split <;> rfl
  | offerProgress progress =>
    refine Eq.trans ?_ (Bool.or_false _).symm
    unfold effect
    dsimp only
    split <;> rfl
  | _ => exact (Bool.or_false _).symm

/-! ## What every world keeps -/

namespace Signalled

variable {start : Nat} {w w' : World}

/-- A record of another thread. -/
theorem hostRecord (h : Signalled start w) {event : HostEvent}
    (hlog : w'.log = .host event :: w.log) (hclock : w'.clock = w.clock)
    (htoken : w'.control.cancel = (w.control.cancel || Record.cancelsToken (.host event))) :
    Signalled start w' := by
  refine ⟨?_, ?_, ?_⟩
  · rw [htoken, hlog, tokenCancelled_cons, ← h.token, Bool.or_eq_true, or_comm]
  · rw [hlog, hclock]
    exact h.clock
  · rw [hlog]
    exact ⟨h.told, trivial⟩

/-- A step of another thread. -/
theorem hostEffect (h : Signalled start w) (heffect : w.HostEffect w') : Signalled start w' := by
  cases heffect with
  | silent events toolProgress => exact ⟨h.token, h.clock, h.told⟩
  | updateStarted config hstate hvalid => exact ⟨h.token, h.clock, h.told⟩
  | cancelDone i call source hcall => exact h.hostRecord rfl rfl (Bool.or_true _).symm
  | cancelLost source hstate =>
    have hfirst : Signalled start ({ w with cancels := w.cancels + 1 }.record
        (.casCancel w.cancels source false)) := h.hostRecord rfl rfl (Bool.or_false _).symm
    exact hfirst.hostRecord rfl rfl (Bool.or_false _).symm
  | _ => exact h.hostRecord rfl rfl (Bool.or_false _).symm

end Signalled

/-- The log of every world describes its clock and its token. -/
theorem signalled_kept (start : Nat) : World.Kept (fun _ _ ↦ True) (Signalled start) where
  host w s h := h.hostEffect (w.hostEffect s)
  pass w schedule clock hle h := ⟨h.token, h.clock.trans hle, h.told⟩
  answered w turn o r h _ hanswer := by
    refine ⟨?_, ?_, ?_⟩
    · rw [World.recordEntry_log, tokenCancelled_cons, World.effect_log, ← h.token]
      show (w.effect o).control.cancel = true ↔ _
      rw [w.effect_cancel o w.clock r, Bool.or_eq_true, or_comm]
    · rw [World.recordEntry_log]
      show w.clock ≤ (w.effect o).clock
      rw [World.effect_clock]
    · rw [World.recordEntry_log, World.effect_log]
      exact ⟨h.told, h.clock, World.answer_timely hanswer, World.answer_tells h.token hanswer⟩

/-- Records never go back in time. -/
theorem clockAfter_le {start : Nat} {newer older : List Record}
    (h : Justified (Told start) (newer ++ older)) :
    clockAfter start older ≤ clockAfter start (newer ++ older) := by
  induction newer with
  | nil => exact Nat.le_refl _
  | cons e newer ih =>
    refine (ih h.1).trans ?_
    cases e with
    | host event => exact Nat.le_refl _
    | runner entry => exact h.2.1

/-- An operation of the runner is not before the records before it. -/
theorem clockAfter_le_note {start : Nat} (newer between : List Record) {older : List Record}
    {entry : Entry interface Nat}
    (h : Justified (Told start) (newer ++ .runner entry :: (between ++ older))) :
    clockAfter start older ≤ entry.note :=
  (clockAfter_le h.past.1).trans h.of_split.1

end MinicoreRuntime
