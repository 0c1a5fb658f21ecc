import MinicoreRuntime.Interactive.Monitor

/-!
# Ghost state and reachable worlds

What a machine loses sight of in its world can be kept in a ghost state beside it, which nothing
reads. The executions are those of the machine itself. The worlds that a monitor lets be reached are
those left by the operations it allows, in any order; they contain the worlds that any program
obeying the monitor leaves.

## Main definitions

* `Tracing.ghost`: a machine with a ghost state.
* `Monitor.Reaches`: the worlds that allowed operations leave.

## Main results

* `Tracing.exec_ghost`: executions with a ghost state are executions.
* `Monitor.Reaches.invariant`: what every allowed operation keeps.
* `Monitor.exec_reaches`: the worlds a program leaves.
-/

namespace Interactive

variable {I : Interface} {ν : Type}

namespace Machine

variable {M N : Machine I} {α β σ W V : Type}

/-- Views of the worlds of executions. -/
def view (f : W → V) (x : Outcome α × W) : Outcome α × V := (x.1, f x.2)

theorem view_andThen (f : W → V) (x : Outcome α × W) (g : α → W → Outcome β × W)
    (g' : α → V → Outcome β × V) (hg : ∀ a w, g' a (f w) = view f (g a w)) :
    andThen (view f x) g' = view f (andThen x g) := by
  obtain ⟨out, w⟩ := x
  cases out with
  | returned a => exact hg a w
  | panicked => rfl
  | stalled => rfl

theorem view_unroll (f : W → V) {body : σ → W → Outcome (σ ⊕ β) × W}
    {body' : σ → V → Outcome (σ ⊕ β) × V} (hbody : ∀ s w, body' s (f w) = view f (body s w))
    (n : Nat)
    (s : σ) (w : W) : unroll body' n s (f w) = view f (unroll body n s w) := by
  induction n generalizing s w with
  | zero => rfl
  | succ n ih =>
    rw [unroll, unroll, hbody]
    refine view_andThen f _ _ _ fun x w' ↦ ?_
    cases x with
    | inl s' => exact ih s' w'
    | inr b => rfl

/-- A view that the operations respect is respected by every program. -/
theorem exec_view (f : M.World → N.World) (hfuel : ∀ w, N.fuel (f w) = M.fuel w)
    (hstep : ∀ o w, N.step o (f w) = view f (M.step o w)) (p : Prog I α) (w : M.World) :
    N.exec p (f w) = view f (M.exec p w) := by
  induction p generalizing w with
  | pure a => rfl
  | panic => rfl
  | op o next ih =>
    rw [exec, exec, hstep]
    exact view_andThen f _ _ _ fun r w' ↦ ih r w'
  | loop body s next ihBody ih =>
    rw [exec, exec, hfuel, view_unroll f (fun s w ↦ ihBody s w)]
    exact view_andThen f _ _ _ fun b w' ↦ ih b w'
  | catchUnwind body next ihBody ih =>
    rw [exec, exec, ihBody]
    rcases M.exec body w with ⟨b | - | -, w'⟩
    · exact ih _ w'
    · exact ih _ w'
    · rfl

end Machine

namespace Tracing

variable (T : Tracing I ν) {G α : Type}

/-- A machine with a ghost state beside its world. The ghost state changes with each operation, and
may depend on the world in which the operation is performed. -/
def ghost (update : T.World → I.Op → G → G) : Tracing I ν where
  World := T.World × G
  fuel x := T.fuel x.1
  step o x := ((T.step o x.1).1, (T.step o x.1).2, update x.1 o x.2)
  trace x := T.trace x.1
  trace_returned h := by
    obtain ⟨hout, rfl⟩ := Prod.mk.inj h
    exact T.trace_returned (Prod.ext hout rfl)
  trace_panicked h := by
    obtain ⟨hout, rfl⟩ := Prod.mk.inj h
    exact T.trace_panicked (Prod.ext hout rfl)
  trace_stalled h := by
    obtain ⟨hout, rfl⟩ := Prod.mk.inj h
    exact T.trace_stalled (Prod.ext hout rfl)

/-- Executions with a ghost state are executions. -/
theorem exec_ghost (update : T.World → I.Op → G → G) (p : Prog I α) (w : T.World) (g : G) :
    ((T.ghost update).exec p (w, g)).1 = (T.exec p w).1 ∧
      ((T.ghost update).exec p (w, g)).2.1 = (T.exec p w).2 := by
  have hview := Machine.exec_view (M := (T.ghost update).toMachine) (N := T.toMachine) Prod.fst
    (fun _ ↦ rfl) (fun _ _ ↦ rfl) p (w, g)
  rw [hview]
  exact ⟨rfl, rfl⟩

end Tracing

namespace Monitor

variable (M : Monitor I ν) (T : Tracing I ν) {α : Type} {x y z : T.World}

/-- The worlds left by operations that the monitor allows. -/
inductive Reaches (x : T.World) : T.World → Prop
  | refl : Reaches x x
  | step {y : T.World} {o : I.Op} (h : Reaches x y) (hallowed : M.allowed (M.run (T.trace y)) o) :
      Reaches x (T.step o y).2

namespace Reaches

variable {M T}

theorem trans (hxy : M.Reaches T x y) (hyz : M.Reaches T y z) : M.Reaches T x z := by
  induction hyz with
  | refl => exact hxy
  | step _ hallowed ih => exact ih.step hallowed

/-- A property that every allowed operation keeps. -/
theorem invariant {J : T.World → Prop} (h : M.Reaches T x y) (hx : J x)
    (hstep : ∀ w o, J w → M.allowed (M.run (T.trace w)) o → J (T.step o w).2) : J y := by
  induction h with
  | refl => exact hx
  | step _ hallowed ih => exact hstep _ _ ih hallowed

/-- The monitor accepts the traces of such worlds, if it expects nothing of the answers. -/
theorem accepts (hM : ∀ s o n r, M.expects s o n r) (h : M.Reaches T x y)
    (hx : M.Accepts (T.trace x)) : M.Accepts (T.trace y) := by
  refine h.invariant (J := fun w ↦ M.Accepts (T.trace w)) hx fun w o hw hallowed ↦ ?_
  rcases hstep : T.step o w with ⟨r | - | -, w'⟩
  · obtain ⟨n, htrace⟩ := T.trace_returned hstep
    dsimp only
    rw [htrace]
    exact ⟨hw, hallowed, hM _ _ _ _⟩
  · dsimp only
    rwa [T.trace_panicked hstep]
  · dsimp only
    rwa [T.trace_stalled hstep]

end Reaches

/-- What an execution leaves of a program that obeys a monitor which expects nothing of the
answers. -/
theorem exec_reaches (hM : ∀ s o n r, M.expects s o n r) {p : Prog I α} {Q : Post M.State α}
    (hx : M.Accepts (T.trace x)) (hwp : M.wp p Q (M.run (T.trace x))) :
    M.Establishes T (M.Reaches T x) Q (T.exec p x) := by
  have hhonours : T.Honours M (M.Reaches T x) := by
    refine ⟨fun o w hw hallowed ↦ hw.step hallowed, ?_⟩
    exact fun _ _ _ _ ↦ hM _ _ _ _
  exact M.exec_sound T hhonours p .refl hx hwp

end Monitor

end Interactive
