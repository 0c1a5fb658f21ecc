import MinicoreRuntime.Interactive.Prog

/-!
# Guarded loops

A loop is guarded if each of its rounds performs an operation before anything else. On a machine
that has only so many answers to give, a program whose loops are guarded ends, or uses up all the
answers: the bound on loop unrolling never cuts an execution short, and an execution that stalls is
one that waits for the world.

## Main definitions

* `Prog.Begins`, `Prog.Guarded`: programs that perform an operation first, and guarded loops.
* `Machine.Wanes`: machines on which every operation uses something up.

## Main results

* `Prog.guarded_bind`, `Prog.guarded_iterate`, `Prog.guarded_catching`: the rules.
* `Machine.Wanes.exec_stalled`: an execution stalls only where nothing is left.
-/

namespace Interactive

variable {I : Interface} {α β σ : Type}

namespace Prog

/-- Before anything else the program performs an operation, or it unwinds. -/
def Begins : Prog I α → Prop
  | .op _ _ => True
  | .panic => True
  | _ => False

/-- All loops of the program are guarded. -/
def Guarded : {α : Type} → Prog I α → Prop
  | _, .pure _ => True
  | _, .panic => True
  | _, .op _ next => ∀ r, (next r).Guarded
  | _, .loop body _ next => (∀ s, (body s).Begins ∧ (body s).Guarded) ∧ ∀ b, (next b).Guarded
  | _, .catchUnwind body next => body.Guarded ∧ ∀ b, (next b).Guarded

theorem guarded_pure (a : α) : (Prog.pure a : Prog I α).Guarded := trivial

theorem guarded_panic : (Prog.panic : Prog I α).Guarded := trivial

theorem guarded_op {o : I.Op} {f : I.Answer o → Prog I α} (h : ∀ r, (f r).Guarded) :
    ((call o).bind f).Guarded := h

theorem guarded_iterate {body : σ → Prog I (σ ⊕ β)} {s : σ}
    (h : ∀ s, (body s).Begins ∧ (body s).Guarded) : (iterate body s).Guarded :=
  ⟨h, fun _ ↦ trivial⟩

theorem guarded_catching {p : Prog I α} (h : p.Guarded) : (catching p).Guarded :=
  ⟨h, fun _ ↦ trivial⟩

/-- A sequence is guarded if its parts are. -/
theorem guarded_bind {p : Prog I α} {f : α → Prog I β} (hp : p.Guarded)
    (hf : ∀ a, (f a).Guarded) : (p.bind f).Guarded := by
  induction p with
  | pure a => exact hf a
  | panic => trivial
  | op o next ih => exact fun r ↦ ih r (hp r) hf
  | loop body s next ihBody ih => exact ⟨hp.1, fun b ↦ ih b (hp.2 b) hf⟩
  | catchUnwind body next ihBody ih => exact ⟨hp.1, fun b ↦ ih b (hp.2 b) hf⟩

end Prog

namespace Machine

variable (M : Machine I) {W : Type}

/-- Every operation uses up some of what is `left` of a world, and stalls only where nothing is. A
loop may be unrolled more often than what is left allows. -/
structure Wanes (left : M.World → Nat) : Prop where
  fuel : ∀ w, left w < M.fuel w
  returned : ∀ {o w r w'}, M.step o w = (.returned r, w') → left w' < left w
  panicked : ∀ {o w w'}, M.step o w = (.panicked, w') → left w' < left w
  stalled : ∀ {o w w'}, M.step o w = (.stalled, w') → left w' = 0 ∧ left w = 0

/-- What an execution that starts with `n` left leaves. -/
structure Leftover (n : Nat) (left : W → Nat) (x : Outcome α × W) : Prop where
  le : left x.2 ≤ n
  stalled : x.1 = .stalled → left x.2 = 0

variable {M} {left : W → Nat} {n : Nat}

/-- A part, and what follows where it returns. -/
theorem Leftover.andThen {x : Outcome α × W} {f : α → W → Outcome β × W} (hx : Leftover n left x)
    (hf : ∀ a w, x = (.returned a, w) → Leftover (left w) left (f a w)) :
    Leftover n left (andThen x f) := by
  obtain ⟨out, w⟩ := x
  cases out with
  | returned a =>
    have hnext := hf a w rfl
    exact ⟨Nat.le_trans hnext.le hx.le, hnext.stalled⟩
  | panicked => exact ⟨hx.le, fun h ↦ absurd h (by simp [Machine.andThen])⟩
  | stalled => exact ⟨hx.le, fun _ ↦ hx.stalled rfl⟩

/-- A loop whose rounds use something up is never cut short by the bound on its unrolling. -/
theorem Leftover.unroll {body : σ → W → Outcome (σ ⊕ β) × W}
    (hbody : ∀ s w, Leftover (left w) left (body s w) ∧
      ∀ x w', body s w = (.returned x, w') → left w' < left w)
    (rounds : Nat) (s : σ) (w : W) (h : left w < rounds) :
    Leftover (left w) left (unroll body rounds s w) := by
  induction rounds generalizing s w with
  | zero => exact absurd h (Nat.not_lt_zero _)
  | succ rounds ih =>
    obtain ⟨hround, hless⟩ := hbody s w
    refine hround.andThen fun x w' hx ↦ ?_
    cases x with
    | inl s' =>
      have hlt := hless _ w' hx
      exact ih s' w' (by omega)
    | inr b => exact ⟨Nat.le_refl _, fun h ↦ absurd h (by simp)⟩

theorem Wanes.step {left : M.World → Nat} (h : M.Wanes left) (o : I.Op) (w : M.World) :
    Leftover (left w) left (M.step o w) ∧
      ∀ r w', M.step o w = (.returned r, w') → left w' < left w := by
  refine ⟨?_, fun r w' hr ↦ h.returned hr⟩
  rcases hstep : M.step o w with ⟨r | - | -, w'⟩
  · exact ⟨Nat.le_of_lt (h.returned hstep), fun h ↦ absurd h (by simp)⟩
  · exact ⟨Nat.le_of_lt (h.panicked hstep), fun h ↦ absurd h (by simp)⟩
  · obtain ⟨hleft, hnone⟩ := h.stalled hstep
    exact ⟨by rw [hnone]; exact Nat.le_of_eq hleft, fun _ ↦ hleft⟩

/-- What a program with guarded loops leaves. One that begins with an operation uses something
up. -/
theorem Wanes.exec {left : M.World → Nat} (h : M.Wanes left) {p : Prog I α} (hp : p.Guarded)
    (w : M.World) :
    Leftover (left w) left (M.exec p w) ∧
      (p.Begins → ∀ a w', M.exec p w = (.returned a, w') → left w' < left w) := by
  -- By the program; a loop ends because each round takes something away.
  induction p generalizing w with
  | pure a => exact ⟨⟨Nat.le_refl _, fun h ↦ absurd h (by simp [Machine.exec])⟩, False.elim⟩
  | panic =>
    refine ⟨⟨Nat.le_refl _, fun h ↦ absurd h (by simp [Machine.exec])⟩, fun _ a w' ha ↦ ?_⟩
    exact absurd ha (by simp [Machine.exec])
  | op o next ih =>
    obtain ⟨hstep, hless⟩ := h.step o w
    refine ⟨hstep.andThen fun r w' _ ↦ (ih r (hp r) w').1, fun _ a w' ha ↦ ?_⟩
    rw [Machine.exec] at ha
    rcases hr : M.step o w with ⟨r | - | -, w₁⟩ <;> rw [hr] at ha
    · have hle := (ih r (hp r) w₁).1.le
      rw [show M.exec (next r) w₁ = (.returned a, w') from ha] at hle
      exact Nat.lt_of_le_of_lt hle (hless r w₁ hr)
    · exact absurd ha (by simp [Machine.andThen])
    · exact absurd ha (by simp [Machine.andThen])
  | loop body s next ihBody ih =>
    refine ⟨?_, False.elim⟩
    have hround : ∀ s w, Leftover (left w) left (M.exec (body s) w) ∧
        ∀ x w', M.exec (body s) w = (.returned x, w') → left w' < left w := by
      intro s w
      obtain ⟨hbody, hless⟩ := ihBody s (hp.1 s).2 w
      exact ⟨hbody, hless (hp.1 s).1⟩
    refine (Leftover.unroll hround (M.fuel w) s w (h.fuel w)).andThen fun b w' _ ↦ ?_
    exact (ih b (hp.2 b) w').1
  | catchUnwind body next ihBody ih =>
    refine ⟨?_, False.elim⟩
    have hbody := (ihBody hp.1 w).1
    rw [Machine.exec]
    rcases hb : M.exec body w with ⟨b | - | -, w'⟩ <;> rw [hb] at hbody
    · have hnext := (ih (some b) (hp.2 _) w').1
      exact ⟨Nat.le_trans hnext.le hbody.le, hnext.stalled⟩
    · have hnext := (ih none (hp.2 _) w').1
      exact ⟨Nat.le_trans hnext.le hbody.le, hnext.stalled⟩
    · exact ⟨hbody.le, fun _ ↦ hbody.stalled rfl⟩

/-- An execution of a program with guarded loops stalls only where nothing is left. -/
theorem Wanes.exec_stalled {left : M.World → Nat} (h : M.Wanes left) {p : Prog I α}
    (hp : p.Guarded) {w w' : M.World} (hstalled : M.exec p w = (.stalled, w')) : left w' = 0 := by
  have hleft := (h.exec hp w).1
  rw [hstalled] at hleft
  exact hleft.stalled rfl

end Machine

end Interactive
