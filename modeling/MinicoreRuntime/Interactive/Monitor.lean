import MinicoreRuntime.Interactive.Prog

/-!
# Monitors: a program logic for interactive programs

A run of an interactive program leaves a trace: the operations performed, each with its answer and
with a note the machine adds (for example the time). A `Monitor` folds the trace into a state of
its own, says which operations it allows in each state (what the program guarantees), and which
answers it expects (what the machine promises).

`Monitor.wp` is the weakest precondition of a program over the monitor's states alone. It mentions
no world and no interference, so a proof about a program is sequential. `Tracing.Honours` states
the machine's half of the bargain, and `Monitor.exec_sound` puts the two halves together: on a
machine that honours the monitor, every execution of a program whose weakest precondition holds
leaves an accepted trace, and its result satisfies the postcondition.

Traces list the newest entry first.

## Main definitions

* `Entry`, `Monitor`, `Monitor.run`, `Monitor.Accepts`: traces and how a monitor reads them.
* `Post`, `Monitor.wp`: postconditions and weakest preconditions.
* `Monitor.Stable`, `Monitor.Free`, `Monitor.Silent`: what an operation may do to a monitor.
* `Tracing`, `Tracing.Honours`: machines with a trace, and what a monitor relies on.

## Main results

* `Monitor.wp_bind`, `Monitor.wp_mono`, `Monitor.wp_iterate`, `Monitor.wp_of_uses`: the rules.
* `Monitor.wp_free_call`, `Monitor.wp_silent_call`, `Monitor.wp_silent_bind`: the rules of what a
  monitor is not about.
* `Monitor.exec_sound`: soundness.
-/

namespace Interactive

variable {I : Interface} {ν : Type}

/-- One performed operation: the operation, the machine's note, and the answer. -/
structure Entry (I : Interface) (ν : Type) where
  op : I.Op
  note : ν
  answer : I.Answer op

/-- A state machine that reads a trace and judges it. -/
structure Monitor (I : Interface) (ν : Type) where
  /-- The states of the monitor. -/
  State : Type
  /-- The state before the first operation. -/
  init : State
  /-- The operations the program may perform in a state. -/
  allowed : State → I.Op → Prop
  /-- The notes and answers the machine may give in a state. -/
  expects : State → (o : I.Op) → ν → I.Answer o → Prop
  /-- The state after an operation. -/
  next : State → (o : I.Op) → ν → I.Answer o → State

namespace Monitor

variable (M : Monitor I ν) {α β σ : Type}

/-- The state after a trace. -/
def run : List (Entry I ν) → M.State
  | [] => M.init
  | e :: past => M.next (run past) e.op e.note e.answer

/-- Every entry of the trace was allowed and expected where it occurred. -/
def Accepts : List (Entry I ν) → Prop
  | [] => True
  | e :: past => Accepts past ∧ M.allowed (M.run past) e.op ∧
      M.expects (M.run past) e.op e.note e.answer

@[simp]
theorem run_nil : M.run [] = M.init := rfl

@[simp]
theorem run_cons (e : Entry I ν) (past : List (Entry I ν)) :
    M.run (e :: past) = M.next (M.run past) e.op e.note e.answer := rfl

@[simp]
theorem accepts_nil : M.Accepts [] := trivial

theorem accepts_cons (e : Entry I ν) (past : List (Entry I ν)) :
    M.Accepts (e :: past) ↔ M.Accepts past ∧ M.allowed (M.run past) e.op ∧
      M.expects (M.run past) e.op e.note e.answer := Iff.rfl

/-- The past of an accepted trace is accepted. -/
theorem Accepts.of_append {newer older : List (Entry I ν)} (h : M.Accepts (newer ++ older)) :
    M.Accepts older := by
  induction newer with
  | nil => exact h
  | cons e newer ih => exact ih h.1

/-- An entry of an accepted trace was allowed and expected by its past. -/
theorem Accepts.of_split {newer older : List (Entry I ν)} {e : Entry I ν}
    (h : M.Accepts (newer ++ e :: older)) :
    M.Accepts older ∧ M.allowed (M.run older) e.op ∧
      M.expects (M.run older) e.op e.note e.answer :=
  Accepts.of_append M h

/-- A property of monitor states that holds at first and that every allowed and expected entry
keeps holds after every accepted trace. -/
theorem Accepts.invariant {J : M.State → Prop} (hinit : J M.init)
    (hstep : ∀ s o n r, J s → M.allowed s o → M.expects s o n r → J (M.next s o n r))
    {t : List (Entry I ν)} (h : M.Accepts t) : J (M.run t) := by
  induction t with
  | nil => exact hinit
  | cons e past ih => exact hstep _ _ _ _ (ih h.1) h.2.1 h.2.2

/-- A postcondition: one part for a program that returns, one for a program that unwinds. -/
structure Post (State α : Type) where
  /-- What holds if the program returns. -/
  returned : α → State → Prop
  /-- What holds if the program unwinds. -/
  panicked : State → Prop

/-- The postcondition that says nothing about unwinding. -/
def Post.ofReturned {State α : Type} (Q : α → State → Prop) : Post State α :=
  ⟨Q, fun _ ↦ True⟩

/-- The weakest precondition of a program. Loops ask for an invariant on the loop variable and the
monitor's state. -/
def wp : {α : Type} → Prog I α → Post M.State α → M.State → Prop
  | _, .pure a, Q, s => Q.returned a s
  | _, .panic, Q, s => Q.panicked s
  | _, .op o next, Q, s =>
      M.allowed s o ∧ Q.panicked s ∧
        ∀ n r, M.expects s o n r → wp (next r) Q (M.next s o n r)
  | _, @Prog.loop _ σ _ _ body i next, Q, s =>
      ∃ Inv : σ → M.State → Prop, Inv i s ∧ ∀ j s', Inv j s' →
        wp (body j)
          ⟨fun x s'' ↦ x.elim (fun j' ↦ Inv j' s'') (fun b ↦ wp (next b) Q s''), Q.panicked⟩ s'
  | _, .catchUnwind body next, Q, s =>
      wp body ⟨fun b s' ↦ wp (next (some b)) Q s', fun s' ↦ wp (next none) Q s'⟩ s

@[simp]
theorem wp_pure (a : α) (Q : Post M.State α) (s : M.State) :
    M.wp (.pure a) Q s = Q.returned a s := rfl

@[simp]
theorem wp_panic (Q : Post M.State α) (s : M.State) :
    M.wp (.panic : Prog I α) Q s = Q.panicked s := rfl

/-- Weakest preconditions compose through sequencing. -/
theorem wp_bind (p : Prog I α) (f : α → Prog I β) (Q : Post M.State β) (s : M.State) :
    M.wp (p.bind f) Q s = M.wp p ⟨fun a s' ↦ M.wp (f a) Q s', Q.panicked⟩ s := by
  induction p generalizing s with
  | pure a => rfl
  | panic => rfl
  | op o next ih => simp only [Prog.bind, wp, ih]
  | loop body i next ihBody ih => simp only [Prog.bind, wp, ih]
  | catchUnwind body next ihBody ih => simp only [Prog.bind, wp, ih]

/-- Weakest preconditions are monotone in the postcondition. -/
theorem wp_mono {p : Prog I α} {Q R : Post M.State α} {s : M.State} (h : M.wp p Q s)
    (hret : ∀ a s', Q.returned a s' → R.returned a s')
    (hpanic : ∀ s', Q.panicked s' → R.panicked s') : M.wp p R s := by
  induction p generalizing s with
  | pure a => exact hret a s h
  | panic => exact hpanic s h
  | op o next ih => exact ⟨h.1, hpanic s h.2.1, fun n r hr ↦ ih r (h.2.2 n r hr) hret hpanic⟩
  | loop body i next ihBody ih =>
    obtain ⟨Inv, hinit, hstep⟩ := h
    refine ⟨Inv, hinit, fun j s' hj ↦ ihBody j (hstep j s' hj) ?_ hpanic⟩
    rintro (j' | b) s'' hx
    · exact hx
    · exact ih b hx hret hpanic
  | catchUnwind body next ihBody ih =>
    exact ihBody h (fun b s' hb ↦ ih (some b) hb hret hpanic)
      (fun s' hn ↦ ih none hn hret hpanic)

/-- The rule of consequence for postconditions that say nothing about unwinding. -/
theorem wp_mono_returned {p : Prog I α} {Q R : α → M.State → Prop} {s : M.State}
    (h : M.wp p (.ofReturned Q) s) (hret : ∀ a s', Q a s' → R a s') :
    M.wp p (.ofReturned R) s :=
  M.wp_mono h hret fun _ h ↦ h

/-- The rule of sequencing: a specification of the first part, then the second from it. -/
theorem wp_bind_of {p : Prog I α} {f : α → Prog I β} {Q : α → M.State → Prop}
    {R : β → M.State → Prop} {s : M.State} (hp : M.wp p (.ofReturned Q) s)
    (hf : ∀ a s', Q a s' → M.wp (f a) (.ofReturned R) s') :
    M.wp (p.bind f) (.ofReturned R) s := by
  rw [wp_bind]
  exact M.wp_mono hp hf fun _ h ↦ h

/-- The rule of a single operation. -/
theorem wp_call_of {o : I.Op} {Q : I.Answer o → M.State → Prop} {s : M.State}
    (hallowed : M.allowed s o) (h : ∀ n r, M.expects s o n r → Q r (M.next s o n r)) :
    M.wp (Prog.call o) (.ofReturned Q) s :=
  ⟨hallowed, trivial, h⟩

/-- The rule of an operation followed by the rest of a program. -/
theorem wp_call_bind_of {o : I.Op} {f : I.Answer o → Prog I α} {R : α → M.State → Prop}
    {s : M.State} (hallowed : M.allowed s o)
    (h : ∀ n r, M.expects s o n r → M.wp (f r) (.ofReturned R) (M.next s o n r)) :
    M.wp ((Prog.call o).bind f) (.ofReturned R) s :=
  ⟨hallowed, trivial, h⟩

/-- The rule of loops: an invariant that holds at entry and that the body keeps. -/
theorem wp_iterate {body : σ → Prog I (σ ⊕ β)} {i : σ} {R : β → M.State → Prop} {s : M.State}
    (Inv : σ → M.State → Prop) (hinit : Inv i s)
    (hstep : ∀ j s', Inv j s' →
      M.wp (body j) (.ofReturned fun x s'' ↦ x.elim (fun j' ↦ Inv j' s'') (fun b ↦ R b s'')) s') :
    M.wp (Prog.iterate body i) (.ofReturned R) s :=
  ⟨Inv, hinit, hstep⟩

/-- A program that uses only operations under which `J` is stable keeps `J`. -/
theorem wp_of_uses {J : M.State → Prop} {S : I.Op → Prop}
    (h : ∀ s o, S o → J s → M.allowed s o ∧ ∀ n r, M.expects s o n r → J (M.next s o n r))
    {p : Prog I α} (hp : p.Uses S) {s : M.State} (hs : J s) :
    M.wp p ⟨fun _ s' ↦ J s', J⟩ s := by
  induction p generalizing s with
  | pure a => exact hs
  | panic => exact hs
  | op o next ih =>
    obtain ⟨hallowed, hnext⟩ := h s o hp.1 hs
    exact ⟨hallowed, hs, fun n r hr ↦ ih r (hp.2 r) (hnext n r hr)⟩
  | loop body i next ihBody ih =>
    refine ⟨fun _ s' ↦ J s', hs, fun j s' hj ↦ ?_⟩
    refine M.wp_mono (ihBody j (hp.1 j) hj) ?_ fun _ h ↦ h
    rintro (j' | b) s'' hx
    · exact hx
    · exact ih b (hp.2 b) hx
  | catchUnwind body next ihBody ih =>
    have hbody := ihBody hp.1 hs
    rw [wp]
    refine M.wp_mono hbody ?_ ?_
    · exact fun b s' hb ↦ ih (some b) (hp.2 _) hb
    · exact fun s' hn ↦ ih none (hp.2 _) hn

/-- In a state that satisfies `J` the operation is allowed, and it leaves such a state. -/
def Stable (J : M.State → Prop) (o : I.Op) : Prop :=
  ∀ s, J s → M.allowed s o ∧ ∀ n r, M.expects s o n r → J (M.next s o n r)

/-- The rule of an operation under which `J` is stable, followed by the rest of a program. -/
theorem wp_stable_bind {J : M.State → Prop} {o : I.Op} {f : I.Answer o → Prog I α}
    {R : α → M.State → Prop} {s : M.State} (ho : M.Stable J o) (hs : J s)
    (hf : ∀ r s', J s' → M.wp (f r) (.ofReturned R) s') :
    M.wp ((Prog.call o).bind f) (.ofReturned R) s :=
  M.wp_call_bind_of (ho s hs).1 fun n r hr ↦ hf r _ ((ho s hs).2 n r hr)

/-- The rule of a program that uses only operations under which `J` is stable, followed by the rest
of a program. -/
theorem wp_uses_bind {J : M.State → Prop} {S : I.Op → Prop} (hS : ∀ o, S o → M.Stable J o)
    {p : Prog I α} {f : α → Prog I β} {R : β → M.State → Prop} {s : M.State} (hp : p.Uses S)
    (hs : J s) (hf : ∀ a s', J s' → M.wp (f a) (.ofReturned R) s') :
    M.wp (p.bind f) (.ofReturned R) s := by
  refine M.wp_bind_of (Q := fun _ s' ↦ J s') ?_ hf
  exact M.wp_mono (M.wp_of_uses (fun s o ho ↦ hS o ho s) hp hs) (fun _ _ h ↦ h) fun _ _ ↦ trivial

/-! ### Operations that a monitor is not about -/

/-- The operation is always allowed. -/
def Free (o : I.Op) : Prop := ∀ s, M.allowed s o

/-- The operation is always allowed, and never changes the state of the monitor. -/
def Silent (o : I.Op) : Prop := ∀ s, M.allowed s o ∧ ∀ n r, M.next s o n r = s

variable {M} in
/-- A free operation needs to know nothing. -/
theorem Free.stable {o : I.Op} (h : M.Free o) : M.Stable (fun _ ↦ True) o :=
  fun s _ ↦ ⟨h s, fun _ _ _ ↦ trivial⟩

variable {M} in
/-- Everything is stable under a silent operation. -/
theorem Silent.stable {o : I.Op} (h : M.Silent o) (J : M.State → Prop) : M.Stable J o :=
  fun s hs ↦ ⟨(h s).1, fun n r _ ↦ ((h s).2 n r).symm ▸ hs⟩

/-- The rule of a free operation, followed by the rest of a program. -/
theorem wp_free_call {o : I.Op} {f : I.Answer o → Prog I α} {R : α → M.State → Prop} {s : M.State}
    (ho : M.Free o) (hf : ∀ r s', M.wp (f r) (.ofReturned R) s') :
    M.wp ((Prog.call o).bind f) (.ofReturned R) s :=
  M.wp_stable_bind ho.stable trivial fun r s' _ ↦ hf r s'

/-- A program that performs only free operations keeps to the monitor. -/
theorem wp_of_free {S : I.Op → Prop} (hS : ∀ o, S o → M.Free o) {p : Prog I α} (hp : p.Uses S)
    (s : M.State) : M.wp p (.ofReturned fun _ _ ↦ True) s :=
  M.wp_mono (M.wp_of_uses (J := fun _ ↦ True) (fun s o ho ↦ (hS o ho).stable s) hp trivial)
    (fun _ _ h ↦ h) fun _ _ ↦ trivial

/-- The rule of a program that performs only free operations, followed by the rest of a program. -/
theorem wp_free_bind {S : I.Op → Prop} (hS : ∀ o, S o → M.Free o) {p : Prog I α} (hp : p.Uses S)
    {f : α → Prog I β} {R : β → M.State → Prop} {s : M.State}
    (hf : ∀ a s', M.wp (f a) (.ofReturned R) s') : M.wp (p.bind f) (.ofReturned R) s :=
  M.wp_bind_of (M.wp_of_free hS hp s) fun a s' _ ↦ hf a s'

/-- The rule of a silent operation, followed by the rest of a program. -/
theorem wp_silent_call {o : I.Op} {f : I.Answer o → Prog I α} {R : α → M.State → Prop}
    {s : M.State} (ho : M.Silent o) (hf : ∀ r, M.wp (f r) (.ofReturned R) s) :
    M.wp ((Prog.call o).bind f) (.ofReturned R) s := by
  refine M.wp_stable_bind (ho.stable fun s' ↦ s' = s) rfl ?_
  rintro r _ rfl
  exact hf r

/-- The rule of a silent operation whose answer is used. -/
theorem wp_silent_call_of {o : I.Op} {f : I.Answer o → Prog I α} {R : α → M.State → Prop}
    {s : M.State} (ho : M.Silent o)
    (hf : ∀ n r, M.expects s o n r → M.wp (f r) (.ofReturned R) s) :
    M.wp ((Prog.call o).bind f) (.ofReturned R) s := by
  refine M.wp_call_bind_of (ho s).1 fun n r hr ↦ ?_
  rw [(ho s).2]
  exact hf n r hr

/-- A program that performs only silent operations leaves the state alone. -/
theorem wp_of_silent {S : I.Op → Prop} (hS : ∀ o, S o → M.Silent o) {p : Prog I α} (hp : p.Uses S)
    (s : M.State) : M.wp p (.ofReturned fun _ s' ↦ s' = s) s :=
  M.wp_mono (M.wp_of_uses (fun s' o ho ↦ (hS o ho).stable (fun s' ↦ s' = s) s') hp rfl)
    (fun _ _ h ↦ h) fun _ _ ↦ trivial

/-- The rule of a program that performs only silent operations, followed by the rest of a
program. -/
theorem wp_silent_bind {S : I.Op → Prop} (hS : ∀ o, S o → M.Silent o) {p : Prog I α}
    (hp : p.Uses S) {f : α → Prog I β} {R : β → M.State → Prop} {s : M.State}
    (hf : ∀ a, M.wp (f a) (.ofReturned R) s) : M.wp (p.bind f) (.ofReturned R) s := by
  refine M.wp_bind_of (M.wp_of_silent hS hp s) ?_
  rintro a _ rfl
  exact hf a

/-! ### Programs that keep a predicate -/

/-- From a state that satisfies `J` the program comes back to one, or unwinds in one that satisfies
`K`. -/
def Keeps (J K : M.State → Prop) {α : Type} (p : Prog I α) : Prop :=
  ∀ s, J s → M.wp p ⟨fun _ s' ↦ J s', K⟩ s

/-- Keeping a predicate is proved part by part. -/
theorem keeps_compositional {J K : M.State → Prop} (hJK : ∀ s, J s → K s) :
    Prog.Compositional fun p ↦ M.Keeps J K p where
  pure a s hs := hs
  panic s hs := hJK s hs
  bind hp hf s hs := by
    rw [wp_bind]
    exact M.wp_mono (hp s hs) (fun a s' hs' ↦ hf a s' hs') fun _ h ↦ h
  iterate i hbody s hs := by
    refine ⟨fun _ s' ↦ J s', hs, fun j s' hs' ↦ ?_⟩
    refine M.wp_mono (hbody j s' hs') ?_ fun _ h ↦ h
    rintro (j' | b) s'' hs''
    · exact hs''
    · exact hs''

/-- Operations under which `J` is stable keep it, as do programs that use only these. -/
theorem keeps_of_uses {J K : M.State → Prop} {S : I.Op → Prop} (hJK : ∀ s, J s → K s)
    (h : ∀ s o, S o → J s → M.allowed s o ∧ ∀ n r, M.expects s o n r → J (M.next s o n r))
    {p : Prog I α} (hp : p.Uses S) : M.Keeps J K p :=
  fun _ hs ↦ M.wp_mono (M.wp_of_uses h hp hs) (fun _ _ h ↦ h) hJK

/-- Programs that perform only silent operations keep everything. -/
theorem keeps_of_silent {J K : M.State → Prop} {S : I.Op → Prop} (hJK : ∀ s, J s → K s)
    (hS : ∀ o, S o → M.Silent o) {p : Prog I α} (hp : p.Uses S) : M.Keeps J K p :=
  M.keeps_of_uses hJK (fun s o ho ↦ (hS o ho).stable J s) hp

/-- Programs that perform only free operations keep what is always true. -/
theorem keeps_of_free {S : I.Op → Prop} (hS : ∀ o, S o → M.Free o) {p : Prog I α}
    (hp : p.Uses S) : M.Keeps (fun _ ↦ True) (fun _ ↦ True) p :=
  M.keeps_of_uses (fun _ h ↦ h) (fun s o ho ↦ (hS o ho).stable s) hp

/-- What a program returns whatever the answers may be added to its postcondition. -/
theorem wp_and_returns {p : Prog I α} {Q : Post M.State α} {R : α → Prop} {s : M.State}
    (h : M.wp p Q s) (hp : p.Returns R) :
    M.wp p ⟨fun a s' ↦ Q.returned a s' ∧ R a, Q.panicked⟩ s := by
  induction p generalizing s with
  | pure a => exact ⟨h, hp⟩
  | panic => exact h
  | op o next ih => exact ⟨h.1, h.2.1, fun n r hr ↦ ih r (h.2.2 n r hr) (hp r)⟩
  | loop body i next ihBody ih =>
    obtain ⟨Inv, hinit, hstep⟩ := h
    obtain ⟨Inv', hinit', hstep'⟩ := hp
    refine ⟨fun j s' ↦ Inv j s' ∧ Inv' j, ⟨hinit, hinit'⟩, fun j s' hj ↦ ?_⟩
    refine M.wp_mono (ihBody j (hstep j s' hj.1) (hstep' j hj.2)) ?_ fun _ h ↦ h
    rintro (j' | b) s'' ⟨hx, hx'⟩
    · exact ⟨hx, hx'⟩
    · exact ih b hx hx'
  | catchUnwind body next ihBody ih =>
    rw [wp]
    refine M.wp_mono (ihBody h hp.1) ?_ ?_
    · rintro b s' ⟨hb, hb'⟩
      exact ih (some b) hb hb'
    · exact fun s' hn ↦ ih none hn hp.2

/-- The rule of a program that performs only silent operations, followed by the rest of a program.
What it returns whatever the answers may be used. -/
theorem wp_silent_bind_returns {S : I.Op → Prop} (hS : ∀ o, S o → M.Silent o) {p : Prog I α}
    (hp : p.Uses S) {P : α → Prop} (hreturns : p.Returns P) {f : α → Prog I β}
    {R : β → M.State → Prop} {s : M.State} (hf : ∀ a, P a → M.wp (f a) (.ofReturned R) s) :
    M.wp (p.bind f) (.ofReturned R) s := by
  have hwp := M.wp_and_returns (M.wp_of_silent hS hp s) hreturns
  refine M.wp_bind_of (Q := fun a s' ↦ s' = s ∧ P a) ?_ ?_
  · exact M.wp_mono hwp (fun _ _ h ↦ h) fun _ _ ↦ trivial
  · rintro a _ ⟨rfl, ha⟩
    exact hf a ha

end Monitor

/-! ### Histories -/

/-- The monitor that remembers the whole trace. -/
def Monitor.history (allowed : List (Entry I ν) → I.Op → Prop)
    (expects : List (Entry I ν) → (o : I.Op) → ν → I.Answer o → Prop) : Monitor I ν where
  State := List (Entry I ν)
  init := []
  allowed := allowed
  expects := expects
  next past o n r := ⟨o, n, r⟩ :: past

@[simp]
theorem Monitor.history_run (allowed : List (Entry I ν) → I.Op → Prop)
    (expects : List (Entry I ν) → (o : I.Op) → ν → I.Answer o → Prop) (t : List (Entry I ν)) :
    (Monitor.history allowed expects).run t = t := by
  induction t with
  | nil => rfl
  | cons e past ih => exact congrArg (e :: ·) ih

/-- A machine that records the trace of its operations in the world. -/
structure Tracing (I : Interface) (ν : Type) extends Machine I where
  /-- The entries recorded so far. -/
  trace : World → List (Entry I ν)
  /-- An answered operation records one entry. -/
  trace_returned : ∀ {o w r w'}, step o w = (.returned r, w') →
    ∃ n, trace w' = ⟨o, n, r⟩ :: trace w
  /-- An operation that unwound records none. -/
  trace_panicked : ∀ {o w w'}, step o w = (.panicked, w') → trace w' = trace w
  /-- An operation that stalled records none. -/
  trace_stalled : ∀ {o w w'}, step o w = (.stalled, w') → trace w' = trace w

/-- The machine honours a monitor under the world invariant `J`: an allowed operation keeps `J`,
and the entry it records is one the monitor expects. -/
structure Tracing.Honours (T : Tracing I ν) (M : Monitor I ν) (J : T.World → Prop) : Prop where
  /-- The invariant is kept. -/
  keeps : ∀ o w, J w → M.allowed (M.run (T.trace w)) o → J (T.step o w).2
  /-- The recorded entry is expected. -/
  expected : ∀ {o w r w' n}, J w → M.allowed (M.run (T.trace w)) o →
    T.step o w = (.returned r, w') → T.trace w' = ⟨o, n, r⟩ :: T.trace w →
    M.expects (M.run (T.trace w)) o n r

namespace Monitor

variable (M : Monitor I ν) {α β σ : Type} (T : Tracing I ν) {J : T.World → Prop}

/-- What an execution establishes: the invariant, an accepted trace, and the postcondition. -/
def Establishes (J : T.World → Prop) (Q : Post M.State α) (x : Outcome α × T.World) : Prop :=
  J x.2 ∧ M.Accepts (T.trace x.2) ∧
    match x.1 with
    | .returned a => Q.returned a (M.run (T.trace x.2))
    | .panicked => Q.panicked (M.run (T.trace x.2))
    | .stalled => True

/-- The postcondition of an execution that returned. -/
theorem Establishes.of_returned {Q : Post M.State α} {x : Outcome α × T.World} {a : α}
    (h : M.Establishes T J Q x) (hx : x.1 = .returned a) :
    Q.returned a (M.run (T.trace x.2)) := by
  have hout := h.2.2
  rw [hx] at hout
  exact hout

theorem establishes_andThen {Q : Post M.State α} {R : Post M.State β}
    {x : Outcome α × T.World} {f : α → T.World → Outcome β × T.World}
    (hx : M.Establishes T J Q x) (hpanic : ∀ s, Q.panicked s → R.panicked s)
    (hf : ∀ a w, J w → M.Accepts (T.trace w) → Q.returned a (M.run (T.trace w)) →
      M.Establishes T J R (f a w)) :
    M.Establishes T J R (Machine.andThen x f) := by
  obtain ⟨out, w⟩ := x
  obtain ⟨hJ, hacc, hout⟩ := hx
  cases out with
  | returned a => exact hf a w hJ hacc hout
  | panicked => exact ⟨hJ, hacc, hpanic _ hout⟩
  | stalled => exact ⟨hJ, hacc, trivial⟩

theorem establishes_step (hT : T.Honours M J) {o : I.Op} {w : T.World}
    {Q : Post M.State (I.Answer o)}
    (hJ : J w) (hacc : M.Accepts (T.trace w)) (hallowed : M.allowed (M.run (T.trace w)) o)
    (hpanic : Q.panicked (M.run (T.trace w)))
    (hret : ∀ n r, M.expects (M.run (T.trace w)) o n r →
      Q.returned r (M.next (M.run (T.trace w)) o n r)) :
    M.Establishes T J Q (T.step o w) := by
  have hkeep := hT.keeps o w hJ hallowed
  rcases hstep : T.step o w with ⟨out, w'⟩
  rw [hstep] at hkeep
  -- What the machine answered was expected; a panic and a stall add nothing to the trace.
  cases out with
  | returned r =>
    obtain ⟨n, hn⟩ := T.trace_returned hstep
    have hexp := hT.expected hJ hallowed hstep hn
    refine ⟨hkeep, ?_, ?_⟩
    · rw [hn]
      exact ⟨hacc, hallowed, hexp⟩
    · simp only [hn, run_cons]
      exact hret n r hexp
  | panicked =>
    have hn := T.trace_panicked hstep
    exact ⟨hkeep, by rw [hn]; exact hacc, by simpa only [hn] using hpanic⟩
  | stalled =>
    have hn := T.trace_stalled hstep
    exact ⟨hkeep, by rw [hn]; exact hacc, trivial⟩

theorem establishes_unroll {Inv : σ → M.State → Prop} {R : Post M.State β}
    {body : σ → T.World → Outcome (σ ⊕ β) × T.World}
    (hbody : ∀ s w, J w → M.Accepts (T.trace w) → Inv s (M.run (T.trace w)) →
      M.Establishes T J
        ⟨fun x s' ↦ x.elim (fun j ↦ Inv j s') (fun b ↦ R.returned b s'), R.panicked⟩ (body s w))
    (n : Nat) (s : σ) (w : T.World) (hJ : J w) (hacc : M.Accepts (T.trace w))
    (hInv : Inv s (M.run (T.trace w))) :
    M.Establishes T J R (Machine.unroll body n s w) := by
  induction n generalizing s w with
  | zero => exact ⟨hJ, hacc, trivial⟩
  | succ n ih =>
    refine M.establishes_andThen T (hbody s w hJ hacc hInv) (fun _ h ↦ h) ?_
    rintro (s' | b) w' hJ' hacc' hx
    · exact ih s' w' hJ' hacc' hx
    · exact ⟨hJ', hacc', hx⟩

/-- Soundness: on a machine that honours the monitor, an execution of a program whose weakest
precondition holds leaves an accepted trace and satisfies the postcondition. -/
theorem exec_sound (hT : T.Honours M J) (p : Prog I α) {Q : Post M.State α} {w : T.World}
    (hJ : J w) (hacc : M.Accepts (T.trace w)) (hwp : M.wp p Q (M.run (T.trace w))) :
    M.Establishes T J Q (T.exec p w) := by
  induction p generalizing w with
  | pure a => exact ⟨hJ, hacc, hwp⟩
  | panic => exact ⟨hJ, hacc, hwp⟩
  | op o next ih =>
    refine M.establishes_andThen T
      (Q := ⟨fun r s ↦ M.wp (next r) Q s, Q.panicked⟩) ?_ (fun _ h ↦ h) ?_
    · exact M.establishes_step T hT hJ hacc hwp.1 hwp.2.1 hwp.2.2
    · exact fun r w' hJ' hacc' hw' ↦ ih r hJ' hacc' hw'
  | loop body i next ihBody ih =>
    obtain ⟨Inv, hinit, hstep⟩ := hwp
    refine M.establishes_andThen T
      (Q := ⟨fun b s ↦ M.wp (next b) Q s, Q.panicked⟩) ?_ (fun _ h ↦ h)
      (fun b w' hJ' hacc' hw' ↦ ih b hJ' hacc' hw')
    exact M.establishes_unroll T
      (fun s w' hJ' hacc' hInv ↦ ihBody s hJ' hacc' (hstep s _ hInv)) _ _ _ hJ hacc hinit
  -- The postcondition of the body has both ways on.
  | catchUnwind body next ihBody ih =>
    have hbody := ihBody hJ hacc hwp
    rw [Machine.exec]
    rcases hb : T.exec body w with ⟨out, w'⟩
    rw [hb] at hbody
    obtain ⟨hJ', hacc', hout⟩ := hbody
    cases out with
    | returned b => exact ih _ hJ' hacc' hout
    | panicked => exact ih _ hJ' hacc' hout
    | stalled => exact ⟨hJ', hacc', trivial⟩

end Monitor

end Interactive
