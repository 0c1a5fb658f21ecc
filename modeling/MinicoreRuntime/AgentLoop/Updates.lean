import MinicoreRuntime.Runtime.Log
import Mathlib.Data.List.Nodup

/-!
# Configuration updates

The life of a configuration that a handle asks for, in the order in which the critical sections of
the control plane were entered. The log of a world decides all of it: which updates are accepted,
which revision each is given, which configuration is pending, and who receives it. This holds for
every program that uses the control plane and every interleaving of other threads with it.

## Main definitions

* `Record.slot?`: what a record does to the pending configuration.
* `accepted`, `Latest`, `Disposed`: the accepted updates, the pending one, and the end of one.
* `UpdatesLinearise`: what the log says about updates.

## Main results

* `disposed_once`: an accepted update is pending, or it ended exactly once.
* `updates_linearise`: every log is a linear order of its updates.
-/

namespace MinicoreRuntime

open Interactive

/-! ## What a log says -/

/-- What a record does to the pending configuration: it sets it, clears it, or leaves it. -/
def Record.slot? : Record → Option (Option PendingConfig)
  | .host (.updateReturned config (.ok revision)) => some (some ⟨revision, config⟩)
  | .host _ => none
  | .runner entry =>
    match entry.op with
    | .takeConfig | .beginFinal | .closeAccepting => some none
    | _ => none

/-- The update a record accepts. -/
def Record.accepts? (e : Record) : Option PendingConfig := e.slot?.join

/-- A record after which no update is accepted: the end of accepting, or the start of the seal. -/
def Record.closes : Record → Bool
  | .runner entry =>
    match entry.op with
    | .beginFinal | .closeAccepting => true
    | _ => false
  | .host _ => false

/-- A record after which the loop is not active: a cancellation that wins, or the seal. -/
def Record.stops : Record → Bool
  | .host (.casCancel _ _ won) => won
  | .host _ => false
  | .runner entry =>
    match entry.op with
    | .sealState => true
    | _ => false

/-- The revision a record commits. -/
def Record.commits? : Record → Option Nat
  | .runner entry =>
    match entry.op with
    | .commitRevision revision => some revision
    | _ => none
  | .host _ => none

/-- The accepted updates, newest first. -/
def accepted (log : List Record) : List PendingConfig := log.filterMap Record.accepts?

/-- The pending configuration. -/
def slotAfter : List Record → Option PendingConfig
  | [] => none
  | e :: older => e.slot?.getD (slotAfter older)

/-- The revision committed last. -/
def appliedAfter (log : List Record) : Nat :=
  (log.findSome? Record.commits?).getD ConfigRevision.initial

/-- Accepting has ended. -/
def ClosedIn (log : List Record) : Prop := ∃ e ∈ log, e.closes = true

/-- The loop is cancelled or sealed. -/
def StoppedIn (log : List Record) : Prop := ∃ e ∈ log, e.stops = true

/-- The update `p` was accepted last, and nothing took it since. -/
def Latest (log : List Record) (p : PendingConfig) : Prop :=
  ∃ newer older, log = newer ++ .host (.updateReturned p.config (.ok p.revision)) :: older ∧
    ∀ e ∈ newer, e.slot? = none

/-- The record after `older` ends the update `p`: it takes it, replaces it, or hands it back. -/
def Disposed (log : List Record) (p : PendingConfig) (older : List Record) : Prop :=
  ∃ newer e, log = newer ++ e :: older ∧ e.slot?.isSome = true ∧ Latest older p

@[simp]
theorem slotAfter_cons (e : Record) (older : List Record) :
    slotAfter (e :: older) = e.slot?.getD (slotAfter older) := rfl

@[simp]
theorem accepted_cons (e : Record) (older : List Record) :
    accepted (e :: older) = e.accepts?.toList ++ accepted older := by
  unfold accepted
  cases h : e.accepts? <;> simp [h]

@[simp]
theorem closed_cons (e : Record) (older : List Record) :
    ClosedIn (e :: older) ↔ e.closes = true ∨ ClosedIn older := by
  simp [ClosedIn]

@[simp]
theorem stopped_cons (e : Record) (older : List Record) :
    StoppedIn (e :: older) ↔ e.stops = true ∨ StoppedIn older := by
  simp [StoppedIn]

@[simp]
theorem appliedAfter_cons (e : Record) (older : List Record) :
    appliedAfter (e :: older) = e.commits?.getD (appliedAfter older) := by
  unfold appliedAfter
  rw [List.findSome?_cons]
  cases e.commits? <;> rfl

/-- Only an accepted update sets the pending configuration. -/
theorem Record.slot?_eq_some {e : Record} {p : PendingConfig} :
    e.slot? = some (some p) ↔ e = .host (.updateReturned p.config (.ok p.revision)) := by
  constructor
  · intro h
    unfold Record.slot? at h
    split at h
    · obtain rfl := Option.some.inj (Option.some.inj h)
      rfl
    · exact absurd h (by simp)
    · split at h <;> exact absurd h (by simp)
  · rintro rfl
    rfl

theorem Record.accepts?_eq_some {e : Record} {p : PendingConfig} :
    e.accepts? = some p ↔ e.slot? = some (some p) := by
  unfold Record.accepts?
  cases e.slot? with
  | none => simp
  | some slot => cases slot <;> simp

/-- The pending configuration is the one accepted last and not taken since. -/
theorem slotAfter_eq_some {log : List Record} {p : PendingConfig} :
    slotAfter log = some p ↔ Latest log p := by
  -- By the log: the newest record that sets the slot decides.
  induction log with
  | nil =>
    constructor
    · intro h
      exact absurd h (by simp [slotAfter])
    · rintro ⟨newer, older, h, -⟩
      exact absurd h (by simp)
  | cons e older ih =>
    rw [slotAfter_cons]
    constructor
    · intro h
      cases hslot : e.slot? with
      | none =>
        rw [hslot] at h
        obtain ⟨newer, older', rfl, hnewer⟩ := ih.mp h
        refine ⟨e :: newer, older', rfl, ?_⟩
        exact List.forall_mem_cons.mpr ⟨hslot, hnewer⟩
      | some slot =>
        rw [hslot] at h
        obtain rfl : slot = some p := h
        exact ⟨[], older, by rw [Record.slot?_eq_some.mp hslot]; rfl, by simp⟩
    · rintro ⟨newer, older', heq, hnewer⟩
      cases newer with
      | nil =>
        obtain ⟨rfl, rfl⟩ := List.cons.inj heq
        rfl
      | cons e' newer =>
        obtain ⟨rfl, rfl⟩ := List.cons.inj heq
        rw [hnewer e List.mem_cons_self]
        exact ih.mpr ⟨newer, older', rfl, fun e' he' ↦ hnewer e' (List.mem_cons_of_mem _ he')⟩

theorem Latest.mem_accepted {log : List Record} {p : PendingConfig} (h : Latest log p) :
    p ∈ accepted log := by
  obtain ⟨newer, older, rfl, -⟩ := h
  exact List.mem_filterMap.mpr ⟨_, List.mem_append_right _ List.mem_cons_self, rfl⟩

theorem Disposed.mem_accepted {log older : List Record} {p : PendingConfig}
    (h : Disposed log p older) : p ∈ accepted log := by
  obtain ⟨newer, e, rfl, -, hlatest⟩ := h
  obtain ⟨e', he', haccepts⟩ := List.mem_filterMap.mp hlatest.mem_accepted
  exact List.mem_filterMap.mpr ⟨e', by simp [he'], haccepts⟩

theorem disposed_cons {e : Record} {log older : List Record} {p : PendingConfig} :
    Disposed (e :: log) p older ↔
      Disposed log p older ∨ (older = log ∧ e.slot?.isSome = true ∧ Latest log p) := by
  constructor
  · rintro ⟨newer, e', heq, hslot, hlatest⟩
    cases newer with
    | nil =>
      obtain ⟨rfl, rfl⟩ := List.cons.inj heq
      exact .inr ⟨rfl, hslot, hlatest⟩
    | cons first newer =>
      obtain ⟨rfl, rfl⟩ := List.cons.inj heq
      exact .inl ⟨newer, e', rfl, hslot, hlatest⟩
  · rintro (⟨newer, e', rfl, hslot, hlatest⟩ | ⟨rfl, hslot, hlatest⟩)
    · exact ⟨e :: newer, e', rfl, hslot, hlatest⟩
    · exact ⟨[], e, rfl, hslot, hlatest⟩

/-- An accepted update is pending and nothing ended it, or it is not pending and exactly one record
ended it. -/
theorem disposed_once {log : List Record} (hnodup : (accepted log).Nodup) {p : PendingConfig}
    (hp : p ∈ accepted log) :
    (Latest log p ∧ ¬ ∃ older, Disposed log p older) ∨
      (¬ Latest log p ∧ ∃! older, Disposed log p older) := by
  induction log with
  | nil => exact absurd hp (by simp [accepted])
  | cons e log ih =>
    by_cases he : e.slot? = some (some p)
    · -- The newest record accepts the update; none before it did.
      have haccepts : e.accepts? = some p := Record.accepts?_eq_some.mpr he
      rw [accepted_cons, haccepts] at hnodup
      have hfresh : p ∉ accepted log := (List.nodup_cons.mp hnodup).1
      refine .inl ⟨slotAfter_eq_some.mp (by rw [slotAfter_cons, he]; rfl), ?_⟩
      rintro ⟨older, hdisposed⟩
      rcases disposed_cons.mp hdisposed with hdisposed | ⟨rfl, -, hlatest⟩
      · exact hfresh hdisposed.mem_accepted
      · exact hfresh hlatest.mem_accepted
    · have hp' : p ∈ accepted log := by
        rw [accepted_cons] at hp
        rcases List.mem_append.mp hp with hp | hp
        · exact absurd (Record.accepts?_eq_some.mp (by simpa using hp)) he
        · exact hp
      have hnodup' : (accepted log).Nodup := by
        rw [accepted_cons] at hnodup
        exact (List.nodup_append.mp hnodup).2.1
      have hlatest : Latest (e :: log) p ↔ e.slot? = none ∧ Latest log p := by
        rw [← slotAfter_eq_some, ← slotAfter_eq_some, slotAfter_cons]
        cases hslot : e.slot? with
        | none => simp
        | some slot =>
          simp only [Option.getD_some, reduceCtorEq, false_and, iff_false]
          rintro rfl
          exact he hslot
      rcases ih hnodup' hp' with ⟨hlast, hnone⟩ | ⟨hlast, older, hdisposed, hunique⟩
      · cases hslot : e.slot? with
        | none =>
          refine .inl ⟨hlatest.mpr ⟨hslot, hlast⟩, ?_⟩
          rintro ⟨older, hdisposed⟩
          rcases disposed_cons.mp hdisposed with hdisposed | ⟨-, hsome, -⟩
          · exact hnone ⟨older, hdisposed⟩
          · exact absurd hsome (by simp [hslot])
        | some slot =>
          -- The newest record ends the update.
          refine .inr ⟨fun h ↦ absurd (hlatest.mp h).1 (by simp [hslot]), log, ?_, ?_⟩
          · exact disposed_cons.mpr (.inr ⟨rfl, by simp [hslot], hlast⟩)
          · intro older hdisposed
            rcases disposed_cons.mp hdisposed with hdisposed | ⟨rfl, -, -⟩
            · exact absurd ⟨older, hdisposed⟩ hnone
            · rfl
      · refine .inr ⟨fun h ↦ hlast (hlatest.mp h).2, older, disposed_cons.mpr (.inl hdisposed), ?_⟩
        intro older' hdisposed'
        rcases disposed_cons.mp hdisposed' with hdisposed' | ⟨-, -, hlatest'⟩
        · exact hunique older' hdisposed'
        · exact absurd hlatest' hlast

/-! ## What every world keeps -/

/-- The revision of the next update after `n` accepted ones. -/
def revisionAfter (n : Nat) : Nat := min (n + 1) (2 ^ 64 - 1)

theorem revisionAfter_succ (n : Nat) :
    ConfigRevision.next (revisionAfter n) = revisionAfter (n + 1) := by
  unfold ConfigRevision.next revisionAfter
  omega

/-- What explains the answer of an operation. -/
def AnswerExplained (older : List Record) : (o : Op) → o.Answer → Prop
  | .takeConfig, r => r = slotAfter older
  | .beginFinal, r | .closeAccepting, r => r = (slotAfter older).map PendingConfig.config
  | .appliedRevision, r => r = appliedAfter older
  | _, _ => True

/-- What explains the result of an update. -/
def ResultExplained (limits : LoopLimits) (older : List Record) (config : ExecutionConfig) :
    Except UpdateError Nat → Prop
  | .ok revision =>
    revision = revisionAfter (accepted older).length ∧ ¬ ClosedIn older ∧ ¬ StoppedIn older ∧
      config.Fits limits
  | .error .invalidConfig => ¬ StoppedIn older ∧ ¬ config.Fits limits
  -- The limits are checked before the end of accepting is seen, but after a stop is.
  | .error .notActive => StoppedIn older ∨ (ClosedIn older ∧ config.Fits limits)

/-- What explains a record about updates. -/
def Explained (limits : LoopLimits) (older : List Record) : Record → Prop
  | .runner entry => AnswerExplained older entry.op entry.answer
  | .host (.updateReturned config result) => ResultExplained limits older config result
  | .host (.cancelReturned _ _ result) => result = true → StoppedIn older
  | .host _ => True

/-- The control plane is in the state the log describes. -/
structure Describes (limits : LoopLimits) (w : World) : Prop where
  sameLimits : w.control.limits = limits
  slot : w.control.inner.pendingConfig = slotAfter w.log
  next : w.control.inner.nextRevision = revisionAfter (accepted w.log).length
  applied : w.control.inner.currentRevision = appliedAfter w.log
  accepting : w.control.inner.acceptingUpdates = false ↔ ClosedIn w.log
  inactive : w.control.state ≠ .none ↔ StoppedIn w.log
  cancelling : ∀ call source, .cancelling call source ∈ w.calls → StoppedIn w.log
  /-- The updates under way passed their check. -/
  updating : ∀ config, .updating config ∈ w.calls → config.Fits limits
  explained : Justified (Explained limits) w.log

theorem Describes.start (id : LoopId) (options : LoopOptions) (base : List HistoryItem)
    (clock : Nat) (schedule : List Turn) :
    Describes options.limits (.start id options base clock schedule) where
  sameLimits := rfl
  slot := rfl
  next := rfl
  applied := rfl
  accepting := by simp [World.start, LoopControl.new, ClosedIn]
  inactive := by simp [World.start, LoopControl.new, StoppedIn]
  cancelling := by simp [World.start]
  updating := by simp [World.start]
  explained := trivial

/-- The seal leaves the loop inactive and the guarded state alone. -/
theorem LoopControl.sealState_spec (control : LoopControl) :
    control.sealState.2.limits = control.limits ∧ control.sealState.2.inner = control.inner ∧
      control.sealState.2.state ≠ .none := by
  rw [sealState]
  split
  · exact ⟨rfl, rfl, by simp⟩
  · rename_i hstate
    exact ⟨rfl, rfl, by simp [hstate]⟩
  · rename_i hstate
    exact ⟨rfl, rfl, by simp [hstate]⟩

theorem LoopControl.sealCancelled_spec (control : LoopControl) (source : CancelSource) :
    (control.sealCancelled source).limits = control.limits ∧
      (control.sealCancelled source).inner = control.inner ∧
      ((control.sealCancelled source).state ≠ .none ↔ control.state ≠ .none) := by
  rw [sealCancelled]
  split
  · rename_i hstate
    exact ⟨rfl, rfl, by simp [hstate]⟩
  · exact ⟨rfl, rfl, Iff.rfl⟩

/-- What one more record does to the control plane. -/
structure Advances (w : World) (e : Record) (w' : World) : Prop where
  log : w'.log = e :: w.log
  limits : w'.control.limits = w.control.limits
  slot : w'.control.inner.pendingConfig = e.slot?.getD w.control.inner.pendingConfig
  next : w'.control.inner.nextRevision =
    if e.accepts?.isSome then ConfigRevision.next w.control.inner.nextRevision
    else w.control.inner.nextRevision
  applied : w'.control.inner.currentRevision =
    e.commits?.getD w.control.inner.currentRevision
  accepting : w'.control.inner.acceptingUpdates =
    (w.control.inner.acceptingUpdates && !e.closes)
  inactive : cond e.stops (w'.control.state ≠ .none)
    (w'.control.state ≠ .none ↔ w.control.state ≠ .none)
  /-- A new call is a cancellation that won. -/
  calls : ∀ call ∈ w'.calls,
    call ∈ w.calls ∨ e.stops = true ∧ ∃ number source, call = .cancelling number source

namespace Describes

variable {limits : LoopLimits} {w w' : World}

/-- One more explained record. -/
theorem advance (h : Describes limits w) {e : Record} (hadvances : Advances w e w')
    (hexplained : Explained limits w.log e) : Describes limits w' := by
  -- Each part of the control plane changes as the record says, and so does what the log tells.
  refine ⟨hadvances.limits.trans h.sameLimits, ?_, ?_, ?_, ?_, ?_, ?_, ?_, ?_⟩
  · rw [hadvances.slot, hadvances.log, slotAfter_cons, h.slot]
  · rw [hadvances.next, hadvances.log, accepted_cons, h.next]
    cases e.accepts? with
    | none => simp
    | some p => simp [revisionAfter_succ]
  · rw [hadvances.applied, hadvances.log, appliedAfter_cons, h.applied]
  · rw [hadvances.accepting, hadvances.log, closed_cons, ← h.accepting]
    cases e.closes <;> simp
  · rw [hadvances.log, stopped_cons, ← h.inactive]
    have hinactive := hadvances.inactive
    cases hstops : e.stops <;> rw [hstops] at hinactive <;> simpa using hinactive
  · -- A cancellation under way has stopped the loop, whether it began before or now.
    intro call source hcall
    rw [hadvances.log, stopped_cons]
    rcases hadvances.calls _ hcall with hold | ⟨hstops, -⟩
    · exact .inr (h.cancelling call source hold)
    · exact .inl hstops
  · intro config hcall
    rcases hadvances.calls _ hcall with hold | ⟨-, number, source, hnew⟩
    · exact h.updating config hold
    · exact absurd hnew (by simp)
  · rw [hadvances.log]
    exact ⟨h.explained, hexplained⟩

/-- A step of another thread. -/
theorem hostEffect (h : Describes limits w) (heffect : w.HostEffect w') : Describes limits w' := by
  have hactive (hstate : w.control.state = .none) : ¬ StoppedIn w.log :=
    fun hstopped ↦ h.inactive.mpr hstopped hstate
  cases heffect with
  | silent events toolProgress => exact ⟨h.1, h.2, h.3, h.4, h.5, h.6, h.7, h.8, h.9⟩
  | cancelWon source hstate =>
    refine h.advance (e := .host (.casCancel w.cancels source true)) ?_ trivial
    refine ⟨rfl, rfl, rfl, rfl, rfl, (Bool.and_true _).symm,
      fun h ↦ absurd h (by simp [World.record]), fun call hmem ↦ ?_⟩
    rcases List.mem_append.mp hmem with hold | hnew
    · exact .inl hold
    · exact .inr ⟨rfl, w.cancels, source, List.mem_singleton.mp hnew⟩
  | cancelLost source hstate =>
    -- The exchange and the return of the call are two records.
    have hfirst : Describes limits ({ w with cancels := w.cancels + 1 }.record
        (.casCancel w.cancels source false)) :=
      h.advance (e := .host (.casCancel w.cancels source false))
        ⟨rfl, rfl, rfl, rfl, rfl, (Bool.and_true _).symm, Iff.rfl, fun _ ↦ .inl⟩ trivial
    refine hfirst.advance (e := .host (.cancelReturned w.cancels source false)) ?_
      fun h ↦ absurd h (by simp)
    exact ⟨rfl, rfl, rfl, rfl, rfl, (Bool.and_true _).symm, Iff.rfl, fun _ ↦ .inl⟩
  | cancelDone i call source hcall =>
    have hstopped := h.cancelling call source (List.mem_of_getElem? hcall)
    refine h.advance (e := .host (.cancelReturned call source true)) ?_ fun _ ↦ hstopped
    exact ⟨rfl, rfl, rfl, rfl, rfl, (Bool.and_true _).symm, Iff.rfl,
      fun _ hmem ↦ .inl (List.mem_of_mem_eraseIdx hmem)⟩
  | updateStarted config hstate hvalid =>
    refine ⟨h.1, h.2, h.3, h.4, h.5, h.6, fun call source hcall ↦ ?_, fun config' hcall ↦ ?_, h.9⟩
    · exact h.cancelling call source (by simpa using hcall)
    · rcases List.mem_append.mp hcall with hold | hnew
      · exact h.updating config' hold
      · obtain rfl := HostCall.updating.inj (List.mem_singleton.mp hnew)
        -- The limits that were looked at are those of the loop.
        exact h.sameLimits ▸ hvalid
  | updateInactive config hstate =>
    refine h.advance (e := .host (.updateReturned config (.error .notActive))) ?_
      (.inl (h.inactive.mp hstate))
    exact ⟨rfl, rfl, rfl, rfl, rfl, (Bool.and_true _).symm, Iff.rfl, fun _ ↦ .inl⟩
  | updateInvalid config hstate hvalid =>
    refine h.advance (e := .host (.updateReturned config (.error .invalidConfig))) ?_
      ⟨hactive hstate, by rw [← h.sameLimits]; exact hvalid⟩
    exact ⟨rfl, rfl, rfl, rfl, rfl, (Bool.and_true _).symm, Iff.rfl, fun _ ↦ .inl⟩
  | updateLate i config hcall hlate =>
    -- The loop was closed or stopped after the call had looked.
    have hfits := h.updating config (List.mem_of_getElem? hcall)
    refine h.advance (e := .host (.updateReturned config (.error .notActive))) ?_
      (hlate.symm.imp h.inactive.mp fun hclosed ↦ ⟨h.accepting.mp hclosed, hfits⟩)
    exact ⟨rfl, rfl, rfl, rfl, rfl, (Bool.and_true _).symm, Iff.rfl,
      fun _ hmem ↦ .inl (List.mem_of_mem_eraseIdx hmem)⟩
  | updateAccepted i config hcall haccepting hstate =>
    have hopen : ¬ ClosedIn w.log := fun hclosed ↦ by
      simp [h.accepting.mpr hclosed] at haccepting
    refine h.advance
      (e := .host (.updateReturned config (.ok w.control.inner.nextRevision))) ?_
      ⟨h.next, hopen, hactive hstate, h.updating config (List.mem_of_getElem? hcall)⟩
    exact ⟨rfl, rfl, rfl, rfl, rfl, (Bool.and_true _).symm, Iff.rfl,
      fun _ hmem ↦ .inl (List.mem_of_mem_eraseIdx hmem)⟩
  | answerRefused id answer e hrefused =>
    refine h.advance (e := .host (.answerReturned id answer (.error e))) ?_ trivial
    exact ⟨rfl, rfl, rfl, rfl, rfl, (Bool.and_true _).symm, Iff.rfl, fun _ ↦ .inl⟩
  | answerAccepted answer slot haccepting hstate hslot hanswer =>
    refine h.advance (e := .host (.answerReturned slot.id answer (.ok ()))) ?_ trivial
    exact ⟨rfl, rfl, rfl, rfl, rfl, (Bool.and_true _).symm, Iff.rfl, fun _ ↦ .inl⟩

/-- An operation with its answer. -/
theorem answered (h : Describes limits w) {turn : Turn} {o : Op} {r : o.Answer}
    (hanswer : w.answer turn o = some r) :
    Describes limits ((w.effect o).recordEntry ⟨o, w.clock, r⟩) := by
  refine h.advance (e := .runner ⟨o, w.clock, r⟩) ?_ ?_
  · cases o with
    | takeConfig =>
      exact ⟨rfl, rfl, rfl, rfl, rfl, (Bool.and_true _).symm, Iff.rfl, fun _ ↦ .inl⟩
    | beginFinal =>
      exact ⟨rfl, rfl, rfl, rfl, rfl, (Bool.and_false _).symm, Iff.rfl, fun _ ↦ .inl⟩
    | closeAccepting =>
      exact ⟨rfl, rfl, rfl, rfl, rfl, (Bool.and_false _).symm, Iff.rfl, fun _ ↦ .inl⟩
    | sealState =>
      obtain ⟨hlimits, hinner, hstate⟩ := w.control.sealState_spec
      refine ⟨rfl, hlimits, congrArg _ hinner, congrArg _ hinner, congrArg _ hinner,
        (congrArg _ hinner).trans (Bool.and_true _).symm, hstate, fun _ ↦ .inl⟩
    | sealCancelled source =>
      obtain ⟨hlimits, hinner, hstate⟩ := w.control.sealCancelled_spec source
      exact ⟨rfl, hlimits, congrArg _ hinner, congrArg _ hinner, congrArg _ hinner,
        (congrArg _ hinner).trans (Bool.and_true _).symm, hstate, fun _ ↦ .inl⟩
    | setInteraction slot =>
      show Advances w _ ({ w with control := (w.control.setInteraction slot).2 }.recordEntry _)
      rw [LoopControl.setInteraction]
      split
      · exact ⟨rfl, rfl, rfl, rfl, rfl, (Bool.and_true _).symm, Iff.rfl, fun _ ↦ .inl⟩
      · exact ⟨rfl, rfl, rfl, rfl, rfl, (Bool.and_true _).symm, Iff.rfl, fun _ ↦ .inl⟩
    | offerProgress progress =>
      rw [World.effect]
      split
      · exact ⟨rfl, rfl, rfl, rfl, rfl, (Bool.and_true _).symm, Iff.rfl, fun _ ↦ .inl⟩
      · exact ⟨rfl, rfl, rfl, rfl, rfl, (Bool.and_true _).symm, Iff.rfl, fun _ ↦ .inl⟩
    | _ =>
      exact ⟨rfl, rfl, rfl, rfl, rfl, (Bool.and_true _).symm, Iff.rfl, fun _ ↦ .inl⟩
  · -- What the operation answered is what the log explains.
    cases o with
    | takeConfig =>
      obtain rfl := Option.some.inj hanswer
      exact h.slot
    | beginFinal =>
      obtain rfl := Option.some.inj hanswer
      exact congrArg (Option.map PendingConfig.config) h.slot
    | closeAccepting =>
      obtain rfl := Option.some.inj hanswer
      exact congrArg (Option.map PendingConfig.config) h.slot
    | appliedRevision =>
      obtain rfl := Option.some.inj hanswer
      exact h.applied
    | _ => trivial

end Describes

/-- The control plane stays in the state the log describes, whatever the runner does. -/
theorem describes_kept (limits : LoopLimits) :
    World.Kept (fun _ _ ↦ True) (Describes limits) where
  host w s h := h.hostEffect (w.hostEffect s)
  pass _ _ _ _ h := ⟨h.1, h.2, h.3, h.4, h.5, h.6, h.7, h.8, h.9⟩
  answered _ _ _ _ h _ hanswer := h.answered hanswer

/-! ## Linearisation -/

/-- The revisions of accepted updates count up to the largest one. -/
theorem accepted_revisions {limits : LoopLimits} {log : List Record}
    (h : Justified (Explained limits) log) (hfew : (accepted log).length < 2 ^ 64) :
    (accepted log).reverse.map PendingConfig.revision =
      List.range' 1 (accepted log).length := by
  induction log with
  | nil => rfl
  | cons e older ih =>
    rw [accepted_cons] at hfew ⊢
    cases haccepts : e.accepts? with
    | none =>
      rw [haccepts] at hfew
      exact ih h.1 hfew
    | some p =>
      rw [haccepts] at hfew
      rw [Record.slot?_eq_some.mp (Record.accepts?_eq_some.mp haccepts)] at h
      obtain ⟨hpast, hrevision, -⟩ := h
      have hlength : (accepted older).length + 1 < 2 ^ 64 := by simpa using hfew
      have hexact : p.revision = (accepted older).length + 1 := by
        rw [hrevision, revisionAfter]
        omega
      rw [Option.toList_some, List.singleton_append, List.reverse_cons, List.map_append,
        ih hpast (by omega), List.length_cons, List.range'_1_concat]
      simp [hexact, Nat.add_comm]

/-- An accepted update is within the limits. -/
theorem accepted_fits {limits : LoopLimits} {log : List Record}
    (h : Justified (Explained limits) log) : ∀ p ∈ accepted log, p.config.Fits limits := by
  induction log with
  | nil => exact fun p hp ↦ absurd hp (by simp [accepted])
  | cons e older ih =>
    intro p hp
    rw [accepted_cons] at hp
    rcases List.mem_append.mp hp with hnew | hold
    · rw [Record.slot?_eq_some.mp (Record.accepts?_eq_some.mp (Option.mem_toList.mp hnew))] at h
      exact h.2.2.2.2
    · exact ih h.1 p hold

/-- After the end of accepting nothing is pending. -/
theorem slotAfter_of_closed {limits : LoopLimits} {log : List Record}
    (h : Justified (Explained limits) log) (hclosed : ClosedIn log) : slotAfter log = none := by
  induction log with
  | nil => rfl
  | cons e older ih =>
    rw [slotAfter_cons]
    cases hslot : e.slot? with
    | none =>
      rcases (closed_cons e older).mp hclosed with hcloses | hclosed
      · -- A record that ends accepting clears the slot.
        unfold Record.closes at hcloses
        split at hcloses
        · rename_i entry
          unfold Record.slot? at hslot
          obtain ⟨o, n, r⟩ := entry
          cases o <;> simp at hcloses hslot
        · exact absurd hcloses (by simp)
      · exact ih h.1 hclosed
    | some slot =>
      cases slot with
      | none => rfl
      | some p =>
        rw [Record.slot?_eq_some.mp hslot] at h hclosed
        rcases (closed_cons _ older).mp hclosed with hcloses | hclosed
        · exact absurd hcloses (by simp [Record.closes])
        · exact absurd hclosed h.2.2.1

/-- A step of another thread that logs a rejected update leaves the control plane alone. -/
theorem control_of_rejected {w : World} {s : HostStep} {config : ExecutionConfig} {e : UpdateError}
    (h : (w.hostStep s).log = .host (.updateReturned config (.error e)) :: w.log) :
    (w.hostStep s).control = w.control := by
  have heffect := w.hostEffect s
  generalize w.hostStep s = w' at h heffect
  cases heffect with
  | cancelWon source hstate => exact absurd (List.cons.inj h).1 (by simp)
  | cancelDone i call source hcall => exact absurd (List.cons.inj h).1 (by simp)
  | updateAccepted i config' hcall haccepting hstate =>
    exact absurd (List.cons.inj h).1 (by simp)
  | answerAccepted answer slot haccepting hstate hslot hanswer =>
    exact absurd (List.cons.inj h).1 (by simp)
  | _ => rfl

/-- The updates of a log in their linear order. -/
structure UpdatesLinearise (limits : LoopLimits) (w : World) : Prop where
  /-- Accepted updates have the revisions 1, 2, 3, … in the order of acceptance. -/
  revisions : (accepted w.log).reverse.map PendingConfig.revision =
    List.range' 1 (accepted w.log).length
  /-- A rejected update leaves the control plane alone. -/
  rejected : ∀ s config e,
    (w.hostStep s).log = .host (.updateReturned config (.error e)) :: w.log →
    (w.hostStep s).control = w.control
  /-- The update accepted last is pending until something takes it. -/
  pending : ∀ p, w.control.inner.pendingConfig = some p ↔ Latest w.log p
  /-- An accepted update that is not pending ended exactly once: the runner took it, a later update
  replaced it, or the end of accepting handed it back. -/
  fate : ∀ p ∈ accepted w.log, (Latest w.log p ∧ ¬ ∃ older, Disposed w.log p older) ∨
    (¬ Latest w.log p ∧ ∃! older, Disposed w.log p older)
  /-- The runner takes the update accepted last and not taken yet. -/
  taken : ∀ newer clock r older, w.log = newer ++ .runner ⟨.takeConfig, clock, r⟩ :: older →
    ∀ p, r = some p ↔ Latest older p
  /-- The end of accepting hands back the update accepted last and not taken yet. -/
  handedBack : ∀ newer clock r older,
    w.log = newer ++ .runner ⟨.beginFinal, clock, r⟩ :: older ∨
      w.log = newer ++ .runner ⟨.closeAccepting, clock, r⟩ :: older →
    ∀ config, r = some config ↔ ∃ p, Latest older p ∧ p.config = config
  /-- After the end of accepting an update within the limits is not active. -/
  closed : ∀ newer config result older,
    w.log = newer ++ .host (.updateReturned config result) :: older →
    ClosedIn older → config.Fits limits → result = .error .notActive
  /-- At any time, an update over the limits is invalid unless the loop was stopped before. -/
  invalid : ∀ newer config result older,
    w.log = newer ++ .host (.updateReturned config result) :: older →
    ¬ config.Fits limits → ¬ StoppedIn older → result = .error .invalidConfig
  /-- After the seal, and after a cancellation returned that it won, every update is not active. -/
  stopped : ∀ newer e older, w.log = newer ++ e :: older →
    (e.stops = true ∨ ∃ call source, e = .host (.cancelReturned call source true)) →
    ∀ config result, .host (.updateReturned config result) ∈ newer → result = .error .notActive
  /-- After the end of accepting the slot is empty. -/
  empty : ClosedIn w.log → w.control.inner.pendingConfig = none
  /-- The applied revision is the one committed last. -/
  applied : w.control.inner.currentRevision = appliedAfter w.log ∧
    ∀ newer clock r older, w.log = newer ++ .runner ⟨.appliedRevision, clock, r⟩ :: older →
      r = appliedAfter older

/-- Whatever program uses the control plane and whatever other threads do in between, fewer than
`2 ^ 64` accepted updates have a linear order. -/
theorem updates_linearise {α : Type} (p : Action α) (id : LoopId) (options : LoopOptions)
    (base : List HistoryItem) (clock : Nat) (schedule : List Turn)
    (hfew : (accepted (machine.exec p (.start id options base clock schedule)).2.log).length <
      2 ^ 64) :
    UpdatesLinearise options.limits (machine.exec p (.start id options base clock schedule)).2 := by
  have h : Describes options.limits (machine.exec p (.start id options base clock schedule)).2 :=
    (describes_kept options.limits).exec p (Describes.start id options base clock schedule)
  generalize (machine.exec p (.start id options base clock schedule)).2 = w at h hfew
  have hrevisions := accepted_revisions h.explained hfew
  have hnodup : (accepted w.log).Nodup := by
    have hreverse : ((accepted w.log).reverse.map PendingConfig.revision).Nodup := by
      rw [hrevisions]
      exact List.nodup_range'
    exact List.nodup_reverse.mp (List.Nodup.of_map _ hreverse)
  -- What a record of an update sees in its past.
  have hresult {newer older : List Record} {config : ExecutionConfig}
      {result : Except UpdateError Nat}
      (hsplit : w.log = newer ++ .host (.updateReturned config result) :: older) :
      ResultExplained options.limits older config result := by
    have hexplained := h.explained
    rw [hsplit] at hexplained
    exact hexplained.of_split
  refine ⟨hrevisions, fun s config e ↦ control_of_rejected, ?_, ?_, ?_, ?_, ?_, ?_, ?_, ?_, ?_⟩
  · intro p
    rw [h.slot, slotAfter_eq_some]
  · exact fun p hp ↦ disposed_once hnodup hp
  · intro newer clock r older hsplit p
    have hexplained := h.explained
    rw [hsplit] at hexplained
    rw [show r = slotAfter older from hexplained.of_split, slotAfter_eq_some]
  · intro newer clock r older hsplit config
    have hanswer : r = (slotAfter older).map PendingConfig.config := by
      have hexplained := h.explained
      rcases hsplit with hsplit | hsplit <;> rw [hsplit] at hexplained
      · exact hexplained.of_split
      · exact hexplained.of_split
    rw [hanswer, Option.map_eq_some_iff]
    simp only [slotAfter_eq_some]
  · intro newer config result older hsplit hclosed hfits
    have hexplained := hresult hsplit
    cases result with
    | ok revision => exact absurd hclosed hexplained.2.1
    | error error =>
      cases error with
      | notActive => rfl
      | invalidConfig => exact absurd hfits hexplained.2
  · intro newer config result older hsplit hover hactive
    have hexplained := hresult hsplit
    cases result with
    | ok revision => exact absurd hexplained.2.2.2 hover
    | error error =>
      cases error with
      | notActive =>
        -- Only a stop is seen before the limits.
        rcases hexplained with hstopped | ⟨-, hfits⟩
        · exact absurd hstopped hactive
        · exact absurd hfits hover
      | invalidConfig => rfl
  · intro newer e older hsplit hstops config result hmem
    obtain ⟨newer₁, newer₂, rfl⟩ := List.append_of_mem hmem
    rw [List.append_assoc, List.cons_append] at hsplit
    have hexplained := hresult hsplit
    have hstopped : StoppedIn (newer₂ ++ e :: older) := by
      rcases hstops with hstops | ⟨call, source, rfl⟩
      · exact ⟨e, by simp, hstops⟩
      · -- A cancellation that returned `true` won before.
        have hpast := h.explained
        rw [hsplit, ← List.cons_append, ← List.append_assoc] at hpast
        obtain ⟨e', he', hstops⟩ := (hpast.of_split : _ → StoppedIn older) rfl
        exact ⟨e', by simp [he'], hstops⟩
    cases result with
    | ok revision => exact absurd hstopped hexplained.2.2.1
    | error error =>
      cases error with
      | notActive => rfl
      | invalidConfig => exact absurd hstopped hexplained.1
  · intro hclosed
    rw [h.slot]
    exact slotAfter_of_closed h.explained hclosed
  · refine ⟨h.applied, fun newer clock r older hsplit ↦ ?_⟩
    have hexplained := h.explained
    rw [hsplit] at hexplained
    exact hexplained.of_split

/-! ### Two updates -/

namespace UpdateSample

/-- The name of the tool. -/
def toolName : ToolName := ⟨"grep".toList, by decide, by decide⟩

/-- The tool. -/
def tool : ToolSpec := ⟨toolName, ⟨"greps".toList, by decide⟩, .object [], by decide⟩

/-- A configuration with the tool. -/
def config : ExecutionConfig :=
  ⟨⟨1⟩, ⟨⟨"small".toList, by decide, by decide⟩, 1000, [.auto], true⟩, .auto,
    ⟨[tool], [(toolName, ⟨⟨2⟩, tool⟩)]⟩, none, ⟨4⟩, by decide⟩

/-- Options under ceilings on the names of tools. -/
def options (maxToolNameBytes : Nat) : LoopOptions :=
  ⟨none, 0, 16, fromSecs 30, fromSecs 600, fromSecs 30, fromSecs 1800, 2, fromSecs 1,
    { LoopLimits.default with maxToolNameBytes := maxToolNameBytes }⟩

/-- The world in which the runner ends accepting, and then the update is asked for. -/
def late (maxToolNameBytes : Nat) : World :=
  (machine.exec (perform .beginFinal >>= fun _ ↦ perform .isCancelled)
    (.start (.ofByte 1 (Eq.refl true)) (options maxToolNameBytes) [] 0
      [{ host := [.update config, .resume 0] }, { host := [.update config, .resume 0] }])).2

end UpdateSample

theorem updates_linearise_sample :
    (accepted (UpdateSample.late 64).log).length = 1 ∧
      UpdatesLinearise (UpdateSample.options 64).limits (UpdateSample.late 64) := by
  have haccepted : (accepted (UpdateSample.late 64).log).length = 1 := by decide +kernel
  refine ⟨haccepted, ?_⟩
  apply updates_linearise
  show (accepted (UpdateSample.late 64).log).length < 2 ^ 64
  rw [haccepted]
  decide

/-- An update that is not within the limits is told so even where accepting has ended: the limits
are checked first. -/
theorem updates_late_invalid :
    (UpdateSample.options 1).limits.validate = true ∧
    ∃ newer clock r older,
      (UpdateSample.late 1).log = newer ++ .runner ⟨.beginFinal, clock, r⟩ :: older ∧
      .host (.updateReturned UpdateSample.config (.error .invalidConfig)) ∈ newer :=
  ⟨by decide, [.runner ⟨.isCancelled, 0, false⟩,
    .host (.updateReturned UpdateSample.config (.error .invalidConfig))], 0, none,
    [.host (.updateReturned UpdateSample.config (.error .invalidConfig))], rfl, by simp⟩

end MinicoreRuntime
