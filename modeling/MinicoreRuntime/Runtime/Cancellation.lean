import MinicoreRuntime.Runtime.Signals

/-!
# Cancellations and the seal

The compare-and-exchanges on the atomic state, in the order in which they happened. A cancellation
takes two steps of its thread, the exchange and the cancellation of the token, and the seal takes
one or two of the runner, so that they interleave. The log decides all of it: which cancellation
wins, what the seal finds, and which calls return that they won.

## Main definitions

* `Op.transition`, `runStateAfter`: the atomic state after a log.
* `cancelWins`, `cancelReturns`: the cancellations that won, and those that returned so.
* `Ordered`: what explains a record.

## Main results

* `exchanged_kept`: the log of every world decides its atomic state.
* `Exchanged.wins_le`, `Exchanged.returns_le`: at most one cancellation wins.
* `cancelWins_of_ne_none`: none wins once the loop is cancelled or sealed.
-/

namespace MinicoreRuntime

open Interactive

/-! ## What a log says -/

/-- What the seal finds in a state. -/
def RunState.seal : RunState → FinishSeal
  | .none => .clean
  | .cancelled source => .cancelledPrior source
  | .finished => .alreadyFinished

/-- The atomic state after an operation of the runner. -/
def Op.transition (state : RunState) : (o : Op) → o.Answer → RunState
  | .sealState, finish => if finish = .clean then .finished else state
  | .sealCancelled source, _ => if state = .cancelled source then .finished else state
  | _, _ => state

/-- The cancellation that a record has win. -/
def Record.cancelWon? : Record → Option CancelSource
  | .host (.casCancel _ source true) => some source
  | _ => none

/-- The cancellation that a record has return that it won. -/
def Record.cancelReturned? : Record → Option CancelSource
  | .host (.cancelReturned _ source true) => some source
  | _ => none

/-- The atomic state after a log. -/
def runStateAfter : List Record → RunState
  | [] => .none
  | .runner entry :: older => entry.op.transition (runStateAfter older) entry.answer
  | .host event :: older =>
    match Record.cancelWon? (.host event) with
    | some source => .cancelled source
    | none => runStateAfter older

/-- The cancellations that won, newest first. -/
def cancelWins (log : List Record) : List CancelSource := log.filterMap Record.cancelWon?

/-- The cancellations that returned that they won, newest first. -/
def cancelReturns (log : List Record) : List CancelSource := log.filterMap Record.cancelReturned?

@[simp]
theorem runStateAfter_runner (entry : Entry interface Nat) (older : List Record) :
    runStateAfter (.runner entry :: older) =
      entry.op.transition (runStateAfter older) entry.answer := rfl

@[simp]
theorem runStateAfter_host (event : HostEvent) (older : List Record) :
    runStateAfter (.host event :: older) =
      ((Record.host event).cancelWon?.map RunState.cancelled).getD (runStateAfter older) := by
  rw [runStateAfter]
  cases Record.cancelWon? (.host event) <;> rfl

@[simp]
theorem cancelWins_cons (e : Record) (older : List Record) :
    cancelWins (e :: older) = e.cancelWon?.toList ++ cancelWins older := by
  unfold cancelWins
  cases h : e.cancelWon? <;> simp [h]

@[simp]
theorem cancelWins_append (newer older : List Record) :
    cancelWins (newer ++ older) = cancelWins newer ++ cancelWins older :=
  List.filterMap_append

@[simp]
theorem cancelReturns_cons (e : Record) (older : List Record) :
    cancelReturns (e :: older) = e.cancelReturned?.toList ++ cancelReturns older := by
  unfold cancelReturns
  cases h : e.cancelReturned? <;> simp [h]

/-- What explains an answer about the atomic state. -/
def AnswerOrdered (state : RunState) : (o : Op) → o.Answer → Prop
  | .sealState, finish => finish = state.seal
  | .cancelReason, reason => reason = state.cancelReason
  | _, _ => True

/-- What explains a record about the atomic state. -/
def Ordered (older : List Record) : Record → Prop
  | .runner entry => AnswerOrdered (runStateAfter older) entry.op entry.answer
  | .host (.casCancel _ _ won) => won = true ↔ runStateAfter older = .none
  | .host (.cancelReturned call source result) =>
    .host (.casCancel call source result) ∈ older
  | .host _ => True

/-- A call that won and has not cancelled the token yet. -/
def HostCall.cancelling? : HostCall → Option CancelSource
  | .cancelling _ source => some source
  | .updating _ => none

/-- The log decides the atomic state of the world, and the calls that are on their way. -/
structure Exchanged (w : World) : Prop where
  state : w.control.state = runStateAfter w.log
  cancelling : ∀ call source, .cancelling call source ∈ w.calls →
    .host (.casCancel call source true) ∈ w.log
  /-- A cancellation that won is on its way or returned. -/
  returned : (w.calls.filterMap HostCall.cancelling?).length + (cancelReturns w.log).length =
    (cancelWins w.log).length
  ordered : Justified Ordered w.log

theorem Exchanged.start (id : LoopId) (options : LoopOptions) (base : List HistoryItem)
    (clock : Nat) (schedule : List Turn) :
    Exchanged (.start id options base clock schedule) where
  state := rfl
  cancelling := by simp [World.start]
  returned := rfl
  ordered := trivial

/-! ## What every world keeps -/

/-- An operation changes the atomic state as the log says. -/
theorem World.effect_transition {w : World} {turn : Turn} {o : Op} {r : o.Answer}
    (h : w.answer turn o = some r) :
    (w.effect o).control.state = o.transition w.control.state r := by
  -- Only the two exchanges of the seal touch the atomic state.
  cases o with
  | sealState =>
    obtain rfl := Option.some.inj h
    show w.control.sealState.2.state = if w.control.sealState.1 = .clean then .finished else _
    rw [LoopControl.sealState]
    split
    · rfl
    · rw [if_neg (by simp)]
    · rw [if_neg (by simp)]
  | sealCancelled source =>
    show (w.control.sealCancelled source).state =
      if w.control.state = .cancelled source then _ else _
    rw [LoopControl.sealCancelled]
    split <;> rfl
  | setInteraction slot =>
    show (w.control.setInteraction slot).2.state = w.control.state
    rw [LoopControl.setInteraction]
    split <;> rfl
  | offerProgress progress =>
    unfold effect
    dsimp only
    split <;> rfl
  | _ => rfl

/-- An operation answers what the atomic state says. -/
theorem World.answer_ordered {w : World} {turn : Turn} {o : Op} {r : o.Answer}
    (h : w.answer turn o = some r) : AnswerOrdered w.control.state o r := by
  cases o with
  | sealState =>
    obtain rfl := Option.some.inj h
    show w.control.sealState.1 = w.control.state.seal
    rw [LoopControl.sealState]
    split <;> simp [RunState.seal, *]
  | cancelReason => exact (Option.some.inj h).symm
  | _ => trivial

namespace Exchanged

variable {w w' : World}

/-- A record that says nothing about cancellations. -/
theorem hostRecord (h : Exchanged w) {event : HostEvent} (hlog : w'.log = .host event :: w.log)
    (hstate : w'.control.state = w.control.state)
    (hcalls : w'.calls.filterMap HostCall.cancelling? = w.calls.filterMap HostCall.cancelling?)
    (hmem : ∀ call source, .cancelling call source ∈ w'.calls → .cancelling call source ∈ w.calls)
    (hwon : Record.cancelWon? (.host event) = none)
    (hreturned : Record.cancelReturned? (.host event) = none)
    (hordered : Ordered w.log (.host event)) : Exchanged w' := by
  refine ⟨?_, fun call source hcall ↦ ?_, ?_, ?_⟩
  · rw [hstate, hlog, runStateAfter_host, hwon, h.state]
    rfl
  · rw [hlog]
    exact List.mem_cons_of_mem _ (h.cancelling call source (hmem call source hcall))
  · rw [hlog, hcalls, cancelReturns_cons, cancelWins_cons, hwon, hreturned]
    exact h.returned
  · rw [hlog]
    exact ⟨h.ordered, hordered⟩

/-- Removing a call from the calls under way removes it from those that cancel, if it is one. -/
theorem filterMap_eraseIdx {calls : List HostCall} {i : Nat} {c : HostCall}
    (hcall : calls[i]? = some c) :
    (calls.filterMap HostCall.cancelling?).length =
      ((calls.eraseIdx i).filterMap HostCall.cancelling?).length +
        c.cancelling?.toList.length := by
  induction calls generalizing i with
  | nil => exact absurd hcall (by simp)
  | cons first calls ih =>
    cases i with
    | zero =>
      obtain rfl : first = c := by simpa using hcall
      cases hc : first.cancelling? <;> simp [hc]
    | succ i =>
      have h := ih (i := i) (by simpa using hcall)
      rw [List.eraseIdx_cons_succ, List.filterMap_cons, List.filterMap_cons]
      cases first.cancelling? with
      | none => exact h
      | some source =>
        simp only [List.length_cons]
        omega

/-- A call that does not cancel leaves those that do alone. -/
theorem filterMap_eraseIdx_updating {calls : List HostCall} {i : Nat} {config : ExecutionConfig}
    (hcall : calls[i]? = some (.updating config)) :
    (calls.eraseIdx i).filterMap HostCall.cancelling? = calls.filterMap HostCall.cancelling? := by
  induction calls generalizing i with
  | nil => exact absurd hcall (by simp)
  | cons first calls ih =>
    cases i with
    | zero =>
      obtain rfl : first = .updating config := by simpa using hcall
      rfl
    | succ i =>
      rw [List.eraseIdx_cons_succ, List.filterMap_cons, List.filterMap_cons,
        ih (i := i) (by simpa using hcall)]

/-- A step of another thread. -/
theorem hostEffect (h : Exchanged w) (heffect : w.HostEffect w') : Exchanged w' := by
  have hmem : ∀ {i : Nat} {call source}, HostCall.cancelling call source ∈ w.calls.eraseIdx i →
      .cancelling call source ∈ w.calls := fun hcall ↦ List.mem_of_mem_eraseIdx hcall
  cases heffect with
  | silent events toolProgress => exact ⟨h.state, h.cancelling, h.returned, h.ordered⟩
  | cancelWon source hstate =>
    -- The exchange found the state untouched, and the call is on its way now.
    have hnone : runStateAfter w.log = .none := h.state.symm.trans hstate
    refine ⟨rfl, fun call source' hcall ↦ ?_, ?_, h.ordered, ?_⟩
    · rcases List.mem_append.mp hcall with hcall | hcall
      · exact List.mem_cons_of_mem _ (h.cancelling call source' hcall)
      · obtain ⟨rfl, rfl⟩ : call = w.cancels ∧ source' = source := by simpa using hcall
        exact List.mem_cons_self
    · have hreturned := h.returned
      simp [World.record, Record.cancelReturned?, Record.cancelWon?, HostCall.cancelling?]
      omega
    · simpa [Ordered] using hnone
  | cancelLost source hstate =>
    -- The exchange and the return of the call are two records.
    have hlost : runStateAfter w.log ≠ .none := fun heq ↦ hstate (h.state.trans heq)
    have hfirst : Exchanged ({ w with cancels := w.cancels + 1 }.record
        (.casCancel w.cancels source false)) :=
      h.hostRecord rfl rfl rfl (fun _ _ ↦ id) rfl rfl (by simpa [Ordered] using hlost)
    exact hfirst.hostRecord rfl rfl rfl (fun _ _ ↦ id) rfl rfl List.mem_cons_self
  | cancelDone i call source hcall =>
    have hexchange := h.cancelling call source (List.mem_of_getElem? hcall)
    refine ⟨h.state, fun call' source' hcall' ↦ ?_, ?_, h.ordered, hexchange⟩
    · exact List.mem_cons_of_mem _ (h.cancelling call' source' (hmem hcall'))
    · -- The call that was on its way has returned.
      have hreturned := h.returned
      rw [filterMap_eraseIdx hcall] at hreturned
      simp [World.record, Record.cancelReturned?, Record.cancelWon?]
      simp [HostCall.cancelling?] at hreturned
      omega
  | updateStarted config hstate hvalid =>
    refine ⟨h.state, fun call source hcall ↦ h.cancelling call source ?_, ?_, h.ordered⟩
    · simpa using hcall
    · have hreturned := h.returned
      rw [List.filterMap_append]
      simpa [List.filterMap_cons, HostCall.cancelling?] using hreturned
  | updateInactive config hstate =>
    exact h.hostRecord rfl rfl rfl (fun _ _ ↦ id) rfl rfl trivial
  | updateInvalid config hstate hvalid =>
    exact h.hostRecord rfl rfl rfl (fun _ _ ↦ id) rfl rfl trivial
  | updateLate i config hcall hlate =>
    exact h.hostRecord rfl rfl (filterMap_eraseIdx_updating hcall) (fun _ _ ↦ hmem) rfl rfl trivial
  | updateAccepted i config hcall haccepting hstate =>
    exact h.hostRecord rfl rfl (filterMap_eraseIdx_updating hcall) (fun _ _ ↦ hmem) rfl rfl trivial
  | answerRefused interactionId answer e hrefused =>
    exact h.hostRecord rfl rfl rfl (fun _ _ ↦ id) rfl rfl trivial
  | answerAccepted answer slot haccepting hstate hslot hanswer =>
    exact h.hostRecord rfl rfl rfl (fun _ _ ↦ id) rfl rfl trivial

end Exchanged

/-- The calls of other threads are not the runner's. -/
theorem World.effect_calls (w : World) (o : Op) : (w.effect o).calls = w.calls := by
  unfold World.effect
  split <;> first | rfl | (split <;> rfl)

/-- The log of every world decides its atomic state. -/
theorem exchanged_kept : World.Kept (fun _ _ ↦ True) Exchanged where
  host w s h := h.hostEffect (w.hostEffect s)
  pass _ _ _ _ h := ⟨h.state, h.cancelling, h.returned, h.ordered⟩
  answered w turn o r h _ hanswer := by
    refine ⟨?_, fun call source hcall ↦ ?_, ?_, ?_⟩
    · rw [World.recordEntry_log, World.effect_log, runStateAfter_runner, ← h.state]
      exact World.effect_transition hanswer
    · rw [World.recordEntry_log, World.effect_log]
      have hcall' : .cancelling call source ∈ (w.effect o).calls := hcall
      rw [World.effect_calls] at hcall'
      exact List.mem_cons_of_mem _ (h.cancelling call source hcall')
    · rw [World.recordEntry_log, World.effect_log]
      show ((w.effect o).calls.filterMap HostCall.cancelling?).length + _ = _
      rw [World.effect_calls]
      exact h.returned
    · rw [World.recordEntry_log, World.effect_log]
      refine ⟨h.ordered, ?_⟩
      show AnswerOrdered (runStateAfter w.log) o r
      rw [← h.state]
      exact World.answer_ordered hanswer

/-! ## The order of the exchanges -/

/-- A loop that was cancelled or sealed stays so. -/
theorem transition_ne_none {state : RunState} (h : state ≠ .none) (o : Op) (r : o.Answer) :
    o.transition state r ≠ .none := by
  cases o with
  | sealState =>
    show (if r = FinishSeal.clean then RunState.finished else state) ≠ .none
    split
    · simp
    · exact h
  | sealCancelled source =>
    show (if state = .cancelled source then RunState.finished else state) ≠ .none
    split
    · simp
    · exact h
  | _ => exact h

theorem runStateAfter_append_ne_none {older : List Record} (h : runStateAfter older ≠ .none)
    (newer : List Record) : runStateAfter (newer ++ older) ≠ .none := by
  induction newer with
  | nil => exact h
  | cons e newer ih =>
    cases e with
    | runner entry => exact transition_ne_none ih entry.op entry.answer
    | host event =>
      rw [List.cons_append, runStateAfter_host]
      cases Record.cancelWon? (.host event) with
      | none => exact ih
      | some source => simp

/-- Before the loop is cancelled or sealed no cancellation won, and at most one wins. -/
theorem cancelWins_of_ordered {log : List Record} (h : Justified Ordered log) :
    (runStateAfter log = .none → cancelWins log = []) ∧ (cancelWins log).length ≤ 1 := by
  induction log with
  | nil => exact ⟨fun _ ↦ rfl, Nat.zero_le _⟩
  | cons e older ih =>
    obtain ⟨hnone, hle⟩ := ih h.1
    rw [cancelWins_cons]
    cases hwon : e.cancelWon? with
    | none =>
      refine ⟨fun hstate ↦ ?_, hle⟩
      refine hnone (Classical.byContradiction fun hne ↦ ?_)
      exact runStateAfter_append_ne_none hne [e] hstate
    | some source =>
      -- The exchange wins only in a loop that is neither cancelled nor sealed.
      obtain ⟨call, rfl⟩ : ∃ call, e = .host (.casCancel call source true) := by
        unfold Record.cancelWon? at hwon
        split at hwon
        · obtain rfl := Option.some.inj hwon
          exact ⟨_, rfl⟩
        · exact absurd hwon (by simp)
      have hbefore : runStateAfter older = .none := h.2.mp rfl
      rw [hnone hbefore]
      exact ⟨fun hstate ↦ absurd hstate (by simp [Record.cancelWon?]), Nat.le_refl _⟩

namespace Exchanged

variable {w : World}

/-- At most one cancellation wins. -/
theorem wins_le (h : Exchanged w) : (cancelWins w.log).length ≤ 1 :=
  (cancelWins_of_ordered h.ordered).2

/-- At most one cancellation returns that it won. -/
theorem returns_le (h : Exchanged w) : (cancelReturns w.log).length ≤ 1 := by
  have hwins := h.wins_le
  have hreturned := h.returned
  omega

end Exchanged

/-- After a record that leaves the loop cancelled or sealed, no cancellation wins. -/
theorem cancelWins_of_ne_none {newer older : List Record}
    (h : Justified Ordered (newer ++ older)) (hstate : runStateAfter older ≠ .none) :
    cancelWins newer = [] := by
  induction newer with
  | nil => rfl
  | cons e newer ih =>
    rw [cancelWins_cons, ih h.1, List.append_nil]
    cases e with
    | runner entry => rfl
    | host event =>
      cases event with
      | casCancel call source won =>
        cases won with
        | false => rfl
        | true => exact absurd (h.2.mp rfl) (runStateAfter_append_ne_none hstate newer)
      | _ => rfl

/-- A loop is cancelled only by a cancellation that won. -/
theorem mem_cancelWins {log : List Record} {source : CancelSource}
    (h : runStateAfter log = .cancelled source) : source ∈ cancelWins log := by
  induction log with
  | nil => exact absurd h (by simp [runStateAfter])
  | cons e older ih =>
    rw [cancelWins_cons]
    refine List.mem_append.mpr ?_
    cases e with
    | host event =>
      rw [runStateAfter_host] at h
      cases hwon : Record.cancelWon? (.host event) with
      | none =>
        rw [hwon] at h
        exact .inr (ih h)
      | some winner =>
        rw [hwon] at h
        obtain rfl := RunState.cancelled.inj h
        exact .inl List.mem_cons_self
    | runner entry =>
      obtain ⟨o, n, r⟩ := entry
      -- The runner's exchanges only finish the loop.
      refine .inr (ih ?_)
      rw [runStateAfter_runner] at h
      cases o with
      | sealState =>
        replace h : (if r = FinishSeal.clean then RunState.finished else _) = _ := h
        split at h
        · exact absurd h (by simp)
        · exact h
      | sealCancelled found =>
        replace h :
            (if runStateAfter older = .cancelled found then RunState.finished else _) = _ := h
        split at h
        · exact absurd h (by simp)
        · exact h
      | _ => exact h

theorem RunState.seal_eq_cancelledPrior {state : RunState} {source : CancelSource} :
    state.seal = .cancelledPrior source ↔ state = .cancelled source := by
  cases state <;> simp [RunState.seal]

/-- After the seal the loop is not active. -/
theorem runStateAfter_seal {older : List Record} {n : Nat} {finish : FinishSeal}
    (h : finish = (runStateAfter older).seal) :
    runStateAfter (.runner ⟨.sealState, n, finish⟩ :: older) ≠ .none := by
  rw [runStateAfter_runner]
  show (if finish = .clean then RunState.finished else _) ≠ .none
  split
  · simp
  · rename_i hclean
    intro hnone
    rw [h, hnone] at hclean
    exact hclean rfl

end MinicoreRuntime
