import Mathlib.Init

/-!
# Interactive programs

Programs that interact with a shared world through named operations, and their execution on a
machine that interprets the operations. A program is a tree: at each operation it continues with
a subtree chosen by the answer. Loops are part of the syntax, so that an unbounded loop is a
finite tree, and so is catching an unwinding.

A machine answers one operation at a time. Between two operations anything else may happen to its
world, which is how interference by other threads enters: the machine's `step` first lets them run.
An execution ends by returning, by unwinding, or by stalling, the last when the machine has nothing
more to offer. Stalled executions are the prefixes of longer ones, so a property of the world after
every execution is a property of every reachable world.

## Main definitions

* `Interface`: the operations and the type of the answer to each.
* `Prog I α`: programs over `I` returning an `α`.
* `Machine I`: a world type, an interpretation of every operation, and a bound on loop unrolling.
* `Prog.Compositional`: the properties of programs that are proved part by part.
* `Machine.exec`: the execution of a program.

## Main results

* `Machine.exec_bind`: an execution of `p.bind f` is one of `p` followed by one of `f`.
* `Machine.exec_invariant`: a predicate kept by every operation is kept by every program.
* `Machine.exec_returns`: what an execution returns, the program returns whatever the answers.
-/

namespace Interactive

/-- The operations a program may perform, with the type of the answer to each. -/
structure Interface where
  /-- The operations. -/
  Op : Type
  /-- The type of the answer to an operation. -/
  Answer : Op → Type

/-- Programs over an interface. `loop body s next` runs `body` from the state `s` until it answers
`Sum.inr b` and continues with `next b`; `catchUnwind body next` runs `body` and continues with
`none` if it unwinds. -/
inductive Prog (I : Interface) : Type → Type 1
  | pure {α : Type} (a : α) : Prog I α
  | panic {α : Type} : Prog I α
  | op {α : Type} (o : I.Op) (next : I.Answer o → Prog I α) : Prog I α
  | loop {σ β α : Type} (body : σ → Prog I (σ ⊕ β)) (s : σ) (next : β → Prog I α) : Prog I α
  | catchUnwind {β α : Type} (body : Prog I β) (next : Option β → Prog I α) : Prog I α

namespace Prog

variable {I : Interface} {α β σ : Type}

/-- Sequential composition: graft `f` onto the leaves of a program. -/
def bind : Prog I α → (α → Prog I β) → Prog I β
  | .pure a, f => f a
  | .panic, _ => .panic
  | .op o next, f => .op o fun r ↦ (next r).bind f
  | .loop body s next, f => .loop body s fun b ↦ (next b).bind f
  | .catchUnwind body next, f => .catchUnwind body fun b ↦ (next b).bind f

instance : Monad (Prog I) where
  pure := .pure
  bind := .bind

@[simp]
theorem pure_eq (a : α) : (Pure.pure a : Prog I α) = .pure a := rfl

@[simp]
theorem bind_eq (p : Prog I α) (f : α → Prog I β) : (p >>= f) = p.bind f := rfl

/-- Perform one operation and return its answer. -/
def call (o : I.Op) : Prog I (I.Answer o) :=
  .op o .pure

/-- Run `body` from `s` until it answers `Sum.inr`. -/
def iterate (body : σ → Prog I (σ ⊕ β)) (s : σ) : Prog I β :=
  .loop body s .pure

/-- Run `p` and return `none` if it unwinds. -/
def catching (p : Prog I α) : Prog I (Option α) :=
  .catchUnwind p .pure

/-- `p.Uses S`: whatever the answers, `p` performs only operations that satisfy `S`. -/
def Uses (S : I.Op → Prop) : {α : Type} → Prog I α → Prop
  | _, .pure _ => True
  | _, .panic => True
  | _, .op o next => S o ∧ ∀ r, (next r).Uses S
  | _, .loop body _ next => (∀ s, (body s).Uses S) ∧ ∀ b, (next b).Uses S
  | _, .catchUnwind body next => body.Uses S ∧ ∀ b, (next b).Uses S

theorem uses_pure (S : I.Op → Prop) (a : α) : (Prog.pure a : Prog I α).Uses S := trivial

theorem uses_call {S : I.Op → Prop} {o : I.Op} (h : S o) : (Prog.call (I := I) o).Uses S :=
  ⟨h, fun _ ↦ trivial⟩

theorem uses_iterate {S : I.Op → Prop} {body : σ → Prog I (σ ⊕ β)} {s : σ}
    (h : ∀ s, (body s).Uses S) : (iterate body s).Uses S :=
  ⟨h, fun _ ↦ trivial⟩

/-- A sequence uses what its parts use. -/
theorem uses_bind {S : I.Op → Prop} {p : Prog I α} {f : α → Prog I β} (hp : p.Uses S)
    (hf : ∀ a, (f a).Uses S) : (p.bind f).Uses S := by
  induction p with
  | pure a => exact hf a
  | panic => trivial
  | op o next ih => exact ⟨hp.1, fun r ↦ ih r (hp.2 r) hf⟩
  | loop body s next ihBody ih => exact ⟨hp.1, fun b ↦ ih b (hp.2 b) hf⟩
  | catchUnwind body next ihBody ih => exact ⟨hp.1, fun b ↦ ih b (hp.2 b) hf⟩

theorem uses_mono {S S' : I.Op → Prop} {p : Prog I α} (h : p.Uses S) (hS : ∀ o, S o → S' o) :
    p.Uses S' := by
  induction p with
  | pure a => trivial
  | panic => trivial
  | op o next ih => exact ⟨hS o h.1, fun r ↦ ih r (h.2 r)⟩
  | loop body s next ihBody ih => exact ⟨fun s ↦ ihBody s (h.1 s), fun b ↦ ih b (h.2 b)⟩
  | catchUnwind body next ihBody ih => exact ⟨ihBody h.1, fun b ↦ ih b (h.2 b)⟩

/-- A property of programs that sequences and loops keep. -/
structure Compositional (C : ∀ {α : Type}, Prog I α → Prop) : Prop where
  pure : ∀ {α : Type} (a : α), C (.pure a)
  panic : ∀ {α : Type}, C (.panic : Prog I α)
  bind : ∀ {α β : Type} {p : Prog I α} {f : α → Prog I β}, C p → (∀ a, C (f a)) → C (p.bind f)
  iterate : ∀ {σ β : Type} {body : σ → Prog I (σ ⊕ β)} (s : σ), (∀ s, C (body s)) →
    C (iterate body s)

/-- `p.Returns R`: whatever the answers, a value `p` returns satisfies `R`. Loops ask for an
invariant on the loop variable. -/
def Returns : {α : Type} → Prog I α → (α → Prop) → Prop
  | _, .pure a, R => R a
  | _, .panic, _ => True
  | _, .op _ next, R => ∀ r, (next r).Returns R
  | _, @Prog.loop _ σ _ _ body s next, R =>
      ∃ Inv : σ → Prop, Inv s ∧ ∀ j, Inv j →
        (body j).Returns fun x ↦ x.elim Inv fun b ↦ (next b).Returns R
  | _, .catchUnwind body next, R =>
      (body.Returns fun b ↦ (next (some b)).Returns R) ∧ (next none).Returns R

theorem returns_mono {R R' : α → Prop} {p : Prog I α} (h : p.Returns R)
    (hR : ∀ a, R a → R' a) : p.Returns R' := by
  induction p with
  | pure a => exact hR a h
  | panic => trivial
  | op o next ih => exact fun r ↦ ih r (h r) hR
  | loop body s next ihBody ih =>
    obtain ⟨Inv, hinit, hstep⟩ := h
    refine ⟨Inv, hinit, fun j hj ↦ ihBody j (hstep j hj) ?_⟩
    rintro (j' | b) hx
    · exact hx
    · exact ih b hx hR
  | catchUnwind body next ihBody ih =>
    exact ⟨ihBody h.1 fun b hb ↦ ih (some b) hb hR, ih none h.2 hR⟩

/-- A sequence returns what its second part returns after a value the first part returns. -/
theorem returns_bind {R : α → Prop} {R' : β → Prop} {p : Prog I α} {f : α → Prog I β}
    (hp : p.Returns R) (hf : ∀ a, R a → (f a).Returns R') : (p.bind f).Returns R' := by
  induction p with
  | pure a => exact hf a hp
  | panic => trivial
  | op o next ih => exact fun r ↦ ih r (hp r) hf
  | loop body s next ihBody ih =>
    obtain ⟨Inv, hinit, hstep⟩ := hp
    refine ⟨Inv, hinit, fun j hj ↦ returns_mono (hstep j hj) ?_⟩
    rintro (j' | b) hx
    · exact hx
    · exact ih b hx hf
  | catchUnwind body next ihBody ih =>
    exact ⟨returns_mono hp.1 fun b hb ↦ ih (some b) hb hf, ih none hp.2 hf⟩

theorem returns_true (p : Prog I α) : p.Returns fun _ ↦ True := by
  induction p with
  | pure a => trivial
  | panic => trivial
  | op o next ih => exact ih
  | loop body s next ihBody ih =>
    refine ⟨fun _ ↦ True, trivial, fun j _ ↦ returns_mono (ihBody j) ?_⟩
    rintro (j' | b) -
    · trivial
    · exact ih b
  | catchUnwind body next ihBody ih =>
    exact ⟨returns_mono ihBody fun b _ ↦ ih (some b), ih none⟩

/-- Whatever an operation answers, the rest returns `R`. -/
theorem returns_call_bind {R : α → Prop} {o : I.Op} {f : I.Answer o → Prog I α}
    (h : ∀ r, (f r).Returns R) : ((call o).bind f).Returns R := h

/-- The rule of loops: an invariant of the loop variable. -/
theorem returns_iterate {R : β → Prop} {body : σ → Prog I (σ ⊕ β)} {s : σ} (Inv : σ → Prop)
    (hinit : Inv s) (hstep : ∀ j, Inv j → (body j).Returns fun x ↦ x.elim Inv R) :
    (iterate body s).Returns R :=
  ⟨Inv, hinit, hstep⟩

end Prog

/-- How an execution ends. -/
inductive Outcome (α : Type) where
  /-- The program returned. -/
  | returned (a : α)
  /-- The program unwound. -/
  | panicked
  /-- The machine offered no further step. -/
  | stalled
deriving DecidableEq, Repr

/-- The value of an execution that returned. -/
def Outcome.value? {α : Type} : Outcome α → Option α
  | .returned a => some a
  | .panicked => none
  | .stalled => none

theorem Outcome.value?_eq_some {α : Type} {x : Outcome α} {a : α} :
    x.value? = some a ↔ x = .returned a := by
  cases x <;> simp [value?]

/-- Whether an execution unwound. -/
def Outcome.unwound {α : Type} : Outcome α → Bool
  | .panicked => true
  | .returned _ => false
  | .stalled => false

theorem Outcome.unwound_eq_true {α : Type} {x : Outcome α} : x.unwound = true ↔ x = .panicked := by
  cases x <;> simp [unwound]

/-- An interpretation of the operations of an interface over a world. -/
structure Machine (I : Interface) where
  /-- The state the operations act on. -/
  World : Type
  /-- How often a loop entered in this world may be unrolled before the execution stalls. -/
  fuel : World → Nat
  /-- Perform one operation. -/
  step : (o : I.Op) → World → Outcome (I.Answer o) × World

namespace Machine

variable {I : Interface} (M : Machine I) {α β σ W : Type}

/-- Continue an execution that returned; one that unwound or stalled stays as it is. -/
def andThen : Outcome α × W → (α → W → Outcome β × W) → Outcome β × W
  | (.returned a, w), f => f a w
  | (.panicked, w), _ => (.panicked, w)
  | (.stalled, w), _ => (.stalled, w)

/-- Unroll a loop body at most `n` times. -/
def unroll (body : σ → W → Outcome (σ ⊕ β) × W) : Nat → σ → W → Outcome β × W
  | 0, _, w => (.stalled, w)
  | n + 1, s, w => andThen (body s w) fun x w' ↦
      match x with
      | .inl s' => unroll body n s' w'
      | .inr b => (.returned b, w')

/-- Execute a program. -/
def exec : {α : Type} → Prog I α → M.World → Outcome α × M.World
  | _, .pure a, w => (.returned a, w)
  | _, .panic, w => (.panicked, w)
  | _, .op o next, w => andThen (M.step o w) fun r w' ↦ exec (next r) w'
  | _, .loop body s next, w =>
      andThen (unroll (fun s w ↦ exec (body s) w) (M.fuel w) s w) fun b w' ↦ exec (next b) w'
  | _, .catchUnwind body next, w =>
      match exec body w with
      | (.returned b, w') => exec (next (some b)) w'
      | (.panicked, w') => exec (next none) w'
      | (.stalled, w') => (.stalled, w')

/-- Where the body returns, the execution goes on with what it returned. -/
theorem exec_catchUnwind_returned {body : Prog I β} {next : Option β → Prog I α} {b : β}
    {w w' : M.World} (h : M.exec body w = (.returned b, w')) :
    M.exec (.catchUnwind body next) w = M.exec (next (some b)) w' := by
  rw [exec, h]

/-- Where the body stalls, so does the execution. -/
theorem exec_catchUnwind_stalled {body : Prog I β} {next : Option β → Prog I α} {w w' : M.World}
    (h : M.exec body w = (.stalled, w')) :
    M.exec (.catchUnwind body next) w = (.stalled, w') := by
  rw [exec, h]

/-- Where the body unwinds, the execution goes on in the world it unwound in. -/
theorem exec_catchUnwind_panicked {body : Prog I β} {next : Option β → Prog I α} {w w' : M.World}
    (h : M.exec body w = (.panicked, w')) :
    M.exec (.catchUnwind body next) w = M.exec (next none) w' := by
  rw [exec, h]

theorem andThen_assoc {γ : Type} (x : Outcome α × W) (f : α → W → Outcome β × W)
    (g : β → W → Outcome γ × W) :
    andThen (andThen x f) g = andThen x fun a w ↦ andThen (f a w) g := by
  obtain ⟨out, w⟩ := x
  cases out <;> rfl

/-- Executing a sequence is executing its parts one after the other. -/
theorem exec_bind (p : Prog I α) (f : α → Prog I β) (w : M.World) :
    M.exec (p.bind f) w = andThen (M.exec p w) fun a w' ↦ M.exec (f a) w' := by
  induction p generalizing w with
  | pure a => rfl
  | panic => rfl
  | op o next ih =>
    simp only [Prog.bind, exec, andThen_assoc]
    congr 1
    funext r w'
    exact ih r f w'
  | loop body s next ihBody ih =>
    simp only [Prog.bind, exec, andThen_assoc]
    congr 1
    funext b w'
    exact ih b f w'
  | catchUnwind body next ihBody ih =>
    simp only [Prog.bind, exec]
    split
    · exact ih _ f _
    · exact ih _ f _
    · rfl

/-- If an unwound or stalled part keeps `J` and the continuation does, so does the whole. -/
theorem andThen_invariant {J : W → Prop} {x : Outcome α × W} {f : α → W → Outcome β × W}
    (hx : J x.2) (hf : ∀ a w, x = (.returned a, w) → J (f a w).2) : J (andThen x f).2 := by
  obtain ⟨out, w⟩ := x
  cases out with
  | returned a => exact hf a w rfl
  | panicked => exact hx
  | stalled => exact hx

theorem unroll_invariant {J : W → Prop} {body : σ → W → Outcome (σ ⊕ β) × W}
    (h : ∀ s w, J w → J (body s w).2) (n : Nat) (s : σ) (w : W) (hw : J w) :
    J (unroll body n s w).2 := by
  induction n generalizing s w with
  | zero => exact hw
  | succ n ih =>
    refine andThen_invariant (h s w hw) fun x w' hx ↦ ?_
    have hw' : J w' := by simpa [hx] using h s w hw
    cases x with
    | inl s' => exact ih s' w' hw'
    | inr b => exact hw'

/-- A predicate on worlds that every operation of `S` keeps is kept by every program that uses
only such operations, however its execution ends. -/
theorem exec_invariant_of_uses {J : M.World → Prop} {S : I.Op → Prop}
    (h : ∀ o w, S o → J w → J (M.step o w).2) {p : Prog I α} (hp : p.Uses S) {w : M.World}
    (hw : J w) : J (M.exec p w).2 := by
  induction p generalizing w with
  | pure a => exact hw
  | panic => exact hw
  | op o next ih =>
    refine andThen_invariant (h o w hp.1 hw) fun r w' hr ↦ ih r (hp.2 r) ?_
    simpa [hr] using h o w hp.1 hw
  | loop body s next ihBody ih =>
    have hloop : ∀ s w, J w → J (M.exec (body s) w).2 := fun s w hw ↦ ihBody s (hp.1 s) hw
    refine andThen_invariant (unroll_invariant hloop _ s w hw) fun b w' hb ↦ ih b (hp.2 b) ?_
    simpa [hb] using unroll_invariant hloop (M.fuel w) s w hw
  | catchUnwind body next ihBody ih =>
    have hbody := ihBody hp.1 hw
    rw [exec]
    split <;> rename_i heq <;> rw [heq] at hbody
    · exact ih _ (hp.2 _) hbody
    · exact ih _ (hp.2 _) hbody
    · exact hbody

/-- A predicate on worlds that every operation keeps is kept by every program. -/
theorem exec_invariant {J : M.World → Prop} (h : ∀ o w, J w → J (M.step o w).2)
    (p : Prog I α) {w : M.World} (hw : J w) : J (M.exec p w).2 := by
  have hall : ∀ {γ : Type} (q : Prog I γ), q.Uses fun _ ↦ True := by
    intro γ q
    induction q with
    | pure a => trivial
    | panic => trivial
    | op o next ih => exact ⟨trivial, ih⟩
    | loop body s next ihBody ih => exact ⟨ihBody, ih⟩
    | catchUnwind body next ihBody ih => exact ⟨ihBody, ih⟩
  exact M.exec_invariant_of_uses (fun o w _ hw ↦ h o w hw) (hall p) hw

/-! ### Executions that return -/

/-- An execution that returned did so part by part. -/
theorem andThen_returned {x : Outcome α × W} {f : α → W → Outcome β × W} {b : β}
    (h : (andThen x f).1 = .returned b) :
    ∃ a w, x = (.returned a, w) ∧ (f a w).1 = .returned b := by
  obtain ⟨out, w⟩ := x
  cases out with
  | returned a => exact ⟨a, w, rfl, h⟩
  | panicked => exact absurd h (by simp [andThen])
  | stalled => exact absurd h (by simp [andThen])

theorem unroll_returned {Inv : σ → Prop} {R : β → Prop} {body : σ → W → Outcome (σ ⊕ β) × W}
    (hbody : ∀ s w x, Inv s → (body s w).1 = .returned x → x.elim Inv R) (n : Nat) {s : σ} {w : W}
    {b : β} (hs : Inv s) (h : (unroll body n s w).1 = .returned b) : R b := by
  induction n generalizing s w with
  | zero => exact absurd h (by simp [unroll])
  | succ n ih =>
    obtain ⟨x, w', hx, hrest⟩ := andThen_returned h
    have helim := hbody s w x hs (congrArg Prod.fst hx)
    cases x with
    | inl s' => exact ih helim hrest
    | inr b' =>
      obtain rfl := Outcome.returned.inj hrest
      exact helim

/-- What a program returns in an execution is what it returns whatever the answers. -/
theorem exec_returns {p : Prog I α} {R : α → Prop} (hp : p.Returns R) {w : M.World} {a : α}
    (h : (M.exec p w).1 = .returned a) : R a := by
  induction p generalizing w with
  | pure a' =>
    obtain rfl := Outcome.returned.inj h
    exact hp
  | panic => exact absurd h (by simp [exec])
  | op o next ih =>
    obtain ⟨r, w', -, hrest⟩ := andThen_returned h
    exact ih r (hp r) hrest
  | loop body s next ihBody ih =>
    obtain ⟨Inv, hinit, hstep⟩ := hp
    obtain ⟨b, w', hb, hrest⟩ := andThen_returned h
    refine ih b ?_ hrest
    exact unroll_returned (fun j w x hj hx ↦ ihBody j (hstep j hj) hx) _ hinit
      (congrArg Prod.fst hb)
  | catchUnwind body next ihBody ih =>
    rcases hbody : M.exec body w with ⟨b | - | -, w'⟩
    · rw [M.exec_catchUnwind_returned hbody] at h
      exact ih _ (ihBody hp.1 (congrArg Prod.fst hbody)) h
    · rw [M.exec_catchUnwind_panicked hbody] at h
      exact ih _ hp.2 h
    · rw [M.exec_catchUnwind_stalled hbody] at h
      exact absurd h (by simp)

/-- The first operation of an execution that returned. -/
theorem exec_call_bind_returned {o : I.Op} {f : I.Answer o → Prog I α} {w w' : M.World} {a : α}
    (h : M.exec ((Prog.call o).bind f) w = (.returned a, w')) :
    ∃ r w₁, M.step o w = (.returned r, w₁) ∧ M.exec (f r) w₁ = (.returned a, w') := by
  obtain ⟨r, w₁, hstep, -⟩ := andThen_returned (congrArg Prod.fst h)
  refine ⟨r, w₁, hstep, ?_⟩
  change andThen (M.step o w) (fun r w₁ ↦ M.exec (f r) w₁) = _ at h
  rwa [hstep] at h

end Machine

end Interactive
