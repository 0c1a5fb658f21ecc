import MinicoreRuntime.Interactive.Justified
import Mathlib.Tactic.Common

/-!
# Watch channels

A watch channel keeps the value sent last and counts the values sent. A receiver remembers the
count it has seen; waiting for a change, it is told of a newer value before it is told that all
senders are gone. A waiter looks at the channel, waits for a change if there is no value yet, and
looks again. Any number of waiters come in at any time, and their steps interleave with those of
the senders in any order.

Actions are listed newest first.

## Main definitions

* `Watch`, `Watch.changed`: the channel.
* `Waiter`: where a waiter is.
* `WatchSystem.run`: a channel and its waiters after some actions.

## Main results

* `WatchSystem.finished_some`, `WatchSystem.finished_none`: a waiter ends with a value that was
  sent, or finds the channel closed when nothing was sent.
* `WatchSystem.finished_of_sent`: once a value was sent, two steps of its own end a waiter.
-/

namespace Interactive

/-- A channel that keeps the value sent last. -/
structure Watch (α : Type) where
  value : Option α
  /-- How many values were sent. -/
  version : Nat
  senders : Nat

/-- What a receiver that waits for a change finds. -/
inductive Changed where
  | changed (version : Nat)
  | closed
  | pending

/-- Wait for a change from the version `seen`. A newer value comes before closure. -/
def Watch.changed {α : Type} (channel : Watch α) (seen : Nat) : Changed :=
  if seen < channel.version then .changed channel.version
  else if channel.senders = 0 then .closed
  else .pending

/-- Where a waiter is, with the version it has seen. A result without a value means that the channel
was closed. -/
inductive Waiter (α : Type) where
  | looking (seen : Nat)
  | waiting (seen : Nat)
  | finished (result : Option α)

/-- One step of a waiter. -/
def Waiter.step {α : Type} (channel : Watch α) : Waiter α → Waiter α
  | .looking seen =>
    match channel.value with
    | some value => .finished (some value)
    | none => .waiting seen
  | .waiting seen =>
    match channel.changed seen with
    | .changed version => .looking version
    | .closed => .finished none
    | .pending => .waiting seen
  | .finished result => .finished result

/-- How many steps a waiter still takes once a value was sent. -/
def Waiter.rank {α : Type} : Waiter α → Nat
  | .looking _ => 1
  | .waiting _ => 2
  | .finished _ => 0

/-- What may happen to a channel and its waiters. -/
inductive WatchAction (α : Type) where
  | send (value : α)
  | dropSender
  /-- A waiter comes in. -/
  | subscribe
  /-- The waiter `i` takes a step. -/
  | poll (i : Nat)

/-- The value an action sends. -/
def WatchAction.sent? {α : Type} : WatchAction α → Option α
  | .send value => some value
  | _ => none

/-- Whether an action drops a sender. -/
def WatchAction.drops {α : Type} : WatchAction α → Bool
  | .dropSender => true
  | _ => false

/-- Whether an action is a step of the waiter `i`. -/
def WatchAction.polls {α : Type} (i : Nat) : WatchAction α → Bool
  | .poll j => decide (j = i)
  | _ => false

/-- A channel and its waiters. -/
structure WatchSystem (α : Type) where
  channel : Watch α
  waiters : List (Waiter α)

namespace WatchSystem

variable {α : Type}

/-- One action. -/
def step (s : WatchSystem α) : WatchAction α → WatchSystem α
  | .send value =>
    { s with channel :=
        { s.channel with value := some value, version := s.channel.version + 1 } }
  | .dropSender => { s with channel := { s.channel with senders := s.channel.senders - 1 } }
  | .subscribe => { s with waiters := s.waiters ++ [.looking 0] }
  | .poll i => { s with waiters := s.waiters.modify i (Waiter.step s.channel) }

/-- A channel with `senders` senders and its waiters after some actions. -/
def run (senders : Nat) : List (WatchAction α) → WatchSystem α
  | [] => ⟨⟨none, 0, senders⟩, []⟩
  | a :: past => (run senders past).step a

@[simp]
theorem run_cons (senders : Nat) (a : WatchAction α) (past : List (WatchAction α)) :
    run senders (a :: past) = (run senders past).step a := rfl

/-- The values sent, newest first. -/
def sent (actions : List (WatchAction α)) : List α := actions.filterMap WatchAction.sent?

/-- How many senders were dropped. -/
def drops (actions : List (WatchAction α)) : Nat := actions.countP WatchAction.drops

/-- How many steps the waiter `i` took. -/
def polls (i : Nat) (actions : List (WatchAction α)) : Nat := actions.countP (WatchAction.polls i)

/-- Values are sent only while there is a sender. -/
def Owned (senders : Nat) (actions : List (WatchAction α)) : Prop :=
  Justified (fun past a ↦ a.sent?.isSome → drops past < senders) actions

@[simp]
theorem sent_cons (a : WatchAction α) (past : List (WatchAction α)) :
    sent (a :: past) = a.sent?.toList ++ sent past := by
  unfold sent
  cases h : a.sent? <;> simp [h]

theorem drops_cons (a : WatchAction α) (past : List (WatchAction α)) :
    drops (a :: past) = drops past + if a.drops then 1 else 0 := List.countP_cons

theorem polls_cons (i : Nat) (a : WatchAction α) (past : List (WatchAction α)) :
    polls i (a :: past) = polls i past + if a.polls i then 1 else 0 := List.countP_cons

/-- The version counts the values sent, and the last of them is kept. -/
theorem run_channel (senders : Nat) (actions : List (WatchAction α)) :
    (run senders actions).channel = ⟨(sent actions).head?, (sent actions).length,
      senders - drops actions⟩ := by
  induction actions with
  | nil => rfl
  | cons a past ih =>
    rw [run_cons, sent_cons, drops_cons]
    cases a with
    | send value => simp [step, ih, WatchAction.sent?, WatchAction.drops]
    | dropSender => simp [step, ih, WatchAction.sent?, WatchAction.drops, Nat.sub_add_eq]
    | subscribe => simp [step, ih, WatchAction.sent?, WatchAction.drops]
    | poll i => simp [step, ih, WatchAction.sent?, WatchAction.drops]

/-- What is known of a waiter after some actions. -/
def Explains (senders : Nat) (actions : List (WatchAction α)) : Waiter α → Prop
  | .looking seen => seen ≤ (sent actions).length
  -- The waiter found no value, so that any value has a newer version than it has seen.
  | .waiting seen =>
    seen ≤ (sent actions).length ∧ (seen = (sent actions).length → sent actions = [])
  | .finished (some value) => value ∈ sent actions
  | .finished none => senders ≤ drops actions ∧ sent actions = []

/-- An action keeps what is known of a waiter that does not step. -/
theorem Explains.cons {senders : Nat} {a : WatchAction α} {past : List (WatchAction α)}
    (howned : a.sent?.isSome → drops past < senders) {waiter : Waiter α}
    (h : Explains senders past waiter) : Explains senders (a :: past) waiter := by
  have hdrops : drops past ≤ drops (a :: past) := by
    rw [drops_cons]
    exact Nat.le_add_right _ _
  have hlength : (sent (a :: past)).length = a.sent?.toList.length + (sent past).length := by
    rw [sent_cons, List.length_append]
  rcases waiter with seen | seen | (- | value)
  · exact Nat.le_trans h (by omega)
  · refine ⟨Nat.le_trans h.1 (by omega), fun hseen ↦ ?_⟩
    -- A value sent now is newer than what the waiter has seen.
    have hle := h.1
    have hnone : a.sent?.toList = [] := List.eq_nil_of_length_eq_zero (by omega)
    rw [sent_cons, hnone, List.nil_append]
    exact h.2 (by omega)
  · refine ⟨Nat.le_trans h.1 hdrops, ?_⟩
    rw [sent_cons, h.2, List.append_nil]
    cases hsent : a.sent? with
    | none => rfl
    | some value => exact absurd (howned (by simp [hsent])) (Nat.not_lt_of_le h.1)
  · show value ∈ sent (a :: past)
    rw [sent_cons]
    exact List.mem_append_right _ h

/-- A step of a waiter keeps what is known of it. -/
theorem Explains.step {senders : Nat} {actions : List (WatchAction α)} {waiter : Waiter α}
    (h : Explains senders actions waiter) :
    Explains senders actions (waiter.step (run senders actions).channel) := by
  rw [run_channel]
  rcases waiter with seen | seen | result
  · -- The waiter finds the value sent last, or none was sent.
    unfold Waiter.step
    cases hsent : sent actions with
    | nil => exact ⟨h, fun _ ↦ hsent⟩
    | cons value older =>
      show value ∈ sent actions
      rw [hsent]
      exact List.mem_cons_self
  · unfold Waiter.step Watch.changed
    by_cases hnewer : seen < (sent actions).length
    · simp only [hnewer, if_true]
      exact Nat.le_refl _
    · have hseen : seen = (sent actions).length := by have := h.1; omega
      by_cases hclosed : senders - drops actions = 0
      · simp only [hnewer, hclosed, if_true, if_false]
        exact ⟨by omega, h.2 hseen⟩
      · simp only [hnewer, hclosed, if_false]
        exact h
  · exact h

/-- What is known of every waiter. -/
theorem explains_run {senders : Nat} {actions : List (WatchAction α)}
    (howned : Owned senders actions) :
    ∀ waiter ∈ (run senders actions).waiters, Explains senders actions waiter := by
  induction actions with
  | nil => simp [run]
  | cons a past ih =>
    have hpast := ih howned.1
    have hkeep := fun waiter hwaiter ↦ (hpast waiter hwaiter).cons howned.2
    rw [run_cons]
    cases a with
    | send value => exact hkeep
    | dropSender => exact hkeep
    | subscribe =>
      intro waiter hwaiter
      rcases List.mem_append.mp hwaiter with hwaiter | hwaiter
      · exact hkeep waiter hwaiter
      · obtain rfl := List.mem_singleton.mp hwaiter
        exact Nat.zero_le _
    -- The waiter that is polled looks at the channel as it was; the others are as they were.
    | poll i =>
      intro waiter hwaiter
      obtain ⟨j, hj, rfl⟩ := List.mem_iff_getElem.mp hwaiter
      have hj' : j < (run senders past).waiters.length := by
        simpa [WatchSystem.step] using hj
      have hmem := List.getElem_mem hj'
      simp only [WatchSystem.step, List.getElem_modify]
      split
      · exact (hpast _ hmem).step.cons (a := .poll i) howned.2
      · exact hkeep _ hmem

/-- A waiter ends with a value that was sent. -/
theorem finished_some {senders : Nat} {actions : List (WatchAction α)}
    (howned : Owned senders actions) {value : α}
    (h : .finished (some value) ∈ (run senders actions).waiters) : value ∈ sent actions :=
  explains_run howned _ h

/-- A waiter that finds the channel closed ends when all senders are gone and nothing was sent. -/
theorem finished_none {senders : Nat} {actions : List (WatchAction α)}
    (howned : Owned senders actions)
    (h : .finished none ∈ (run senders actions).waiters) :
    senders ≤ drops actions ∧ sent actions = [] :=
  explains_run howned _ h

/-- Once a value was sent, a step of a waiter lowers its rank. -/
theorem rank_step {senders : Nat} {actions : List (WatchAction α)} (hsent : sent actions ≠ [])
    {waiter : Waiter α} (h : Explains senders actions waiter) :
    (waiter.step (run senders actions).channel).rank ≤ waiter.rank - 1 := by
  rw [run_channel]
  rcases waiter with seen | seen | result
  · unfold Waiter.step
    cases hvalues : sent actions with
    | nil => exact absurd hvalues hsent
    | cons value older => exact Nat.le_refl _
  · have hnewer : seen < (sent actions).length :=
      Nat.lt_of_le_of_ne h.1 fun hseen ↦ hsent (h.2 hseen)
    unfold Waiter.step Watch.changed
    simp only [hnewer, if_true]
    exact Nat.le_refl _
  · exact Nat.zero_le _

/-- The rank of a waiter after a value was sent: its own steps lower it, and nothing raises it. -/
theorem rank_run {senders : Nat} {newer older : List (WatchAction α)}
    (howned : Owned senders (newer ++ older)) (hsent : sent older ≠ []) {i : Nat}
    {waiter : Waiter α} (hwaiter : (run senders older).waiters[i]? = some waiter) :
    ∃ waiter', (run senders (newer ++ older)).waiters[i]? = some waiter' ∧
      waiter'.rank ≤ waiter.rank - polls i newer := by
  induction newer with
  | nil => exact ⟨waiter, hwaiter, Nat.le_refl _⟩
  | cons a newer ih =>
    obtain ⟨waiter', hwaiter', hrank⟩ := ih howned.1
    have hexplains := explains_run howned.1 _ (List.mem_of_getElem? hwaiter')
    have hsent' : sent (newer ++ older) ≠ [] := by
      simpa [sent, List.filterMap_append] using fun _ ↦ hsent
    rw [List.cons_append, run_cons, polls_cons]
    -- A step that does not poll the waiter leaves it as it was.
    have hother : a.polls i = false →
        ((run senders (newer ++ older)).step a).waiters[i]? = some waiter' := by
      intro hpolls
      cases a with
      | send value => exact hwaiter'
      | dropSender => exact hwaiter'
      | subscribe =>
        exact (List.getElem?_append_left (List.getElem?_eq_some_iff.mp hwaiter').1).trans hwaiter'
      | poll j =>
        have hne : j ≠ i := by simpa [WatchAction.polls] using hpolls
        simp [step, hne, hwaiter']
    cases hpolls : a.polls i with
    | false => exact ⟨waiter', hother hpolls, by simpa using hrank⟩
    | true =>
      cases a with
      | poll j =>
        obtain rfl : j = i := by simpa [WatchAction.polls] using hpolls
        refine ⟨waiter'.step (run senders (newer ++ older)).channel, ?_, ?_⟩
        · simp [step, hwaiter']
        · have hstep := rank_step hsent' hexplains
          simp only [if_true]
          omega
      | _ => exact absurd hpolls (by simp [WatchAction.polls])

/-- Once a value was sent, two steps of its own end a waiter with a value, whatever others do. -/
theorem finished_of_sent {senders : Nat} {newer older : List (WatchAction α)}
    (howned : Owned senders (newer ++ older)) (hsent : sent older ≠ []) {i : Nat}
    (hwaiter : i < (run senders older).waiters.length) (hpolls : 2 ≤ polls i newer) :
    ∃ value ∈ sent (newer ++ older),
      (run senders (newer ++ older)).waiters[i]? = some (.finished (some value)) := by
  obtain ⟨waiter, hafter, hrank⟩ := rank_run howned hsent (List.getElem?_eq_getElem hwaiter)
  have hle : ((run senders older).waiters[i]).rank ≤ 2 := by
    unfold Waiter.rank
    split <;> omega
  have hsent' : sent (newer ++ older) ≠ [] := by
    simpa [sent, List.filterMap_append] using fun _ ↦ hsent
  have hexplains := explains_run howned _ (List.mem_of_getElem? hafter)
  have hzero : waiter.rank = 0 := by omega
  rcases waiter with seen | seen | (- | value)
  · exact absurd hzero (by simp [Waiter.rank])
  · exact absurd hzero (by simp [Waiter.rank])
  · exact absurd hexplains.2 hsent'
  · exact ⟨value, hexplains, hafter⟩

end WatchSystem

end Interactive
