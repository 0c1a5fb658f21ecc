import MinicoreRuntime.Interactive.Prog

/-!
# Interpreting programs

A program over one interface becomes a program over another if a handler says what to do for each of
its operations. Where the operations of the first interface stand for several of the second, this is
the refinement of the program.

## Main definitions

* `Prog.interpret`: replace every operation by what a handler does for it.

## Main results

* `Prog.interpret_bind`, `Prog.interpret_call`, `Prog.interpret_iterate`: part by part.
* `Machine.exec_iterate_map`: what a loop answers may be changed inside the loop or after it.
-/

namespace Interactive

namespace Prog

variable {I J : Interface} {α β γ σ : Type}

theorem bind_pure (p : Prog I α) : p.bind .pure = p := by
  induction p with
  | pure a => rfl
  | panic => rfl
  | op o next ih => exact congrArg _ (funext ih)
  | loop body s next ihBody ih => exact congrArg _ (funext ih)
  | catchUnwind body next ihBody ih => exact congrArg _ (funext ih)

theorem bind_assoc (p : Prog I α) (f : α → Prog I β) (g : β → Prog I γ) :
    (p.bind f).bind g = p.bind fun a ↦ (f a).bind g := by
  induction p with
  | pure a => rfl
  | panic => rfl
  | op o next ih => exact congrArg _ (funext fun r ↦ ih r f)
  | loop body s next ihBody ih => exact congrArg _ (funext fun b ↦ ih b f)
  | catchUnwind body next ihBody ih => exact congrArg _ (funext fun b ↦ ih b f)

/-- Replace every operation by what the handler does for it. -/
def interpret (h : ∀ o : I.Op, Prog J (I.Answer o)) : {α : Type} → Prog I α → Prog J α
  | _, .pure a => .pure a
  | _, .panic => .panic
  | _, .op o next => (h o).bind fun r ↦ (next r).interpret h
  | _, .loop body s next => .loop (fun s ↦ (body s).interpret h) s fun b ↦ (next b).interpret h
  | _, .catchUnwind body next => .catchUnwind (body.interpret h) fun b ↦ (next b).interpret h

variable (h : ∀ o : I.Op, Prog J (I.Answer o))

@[simp]
theorem interpret_pure (a : α) : (Prog.pure a : Prog I α).interpret h = .pure a := rfl

@[simp]
theorem interpret_panic : (Prog.panic : Prog I α).interpret h = .panic := rfl

@[simp]
theorem interpret_call (o : I.Op) : (call o).interpret h = h o := (h o).bind_pure

@[simp]
theorem interpret_iterate (body : σ → Prog I (σ ⊕ β)) (s : σ) :
    (iterate body s).interpret h = iterate (fun s ↦ (body s).interpret h) s := rfl

/-- A sequence is interpreted part by part. -/
@[simp]
theorem interpret_bind (p : Prog I α) (f : α → Prog I β) :
    (p.bind f).interpret h = (p.interpret h).bind fun a ↦ (f a).interpret h := by
  induction p with
  | pure a => rfl
  | panic => rfl
  | op o next ih =>
    rw [bind, interpret, interpret, bind_assoc]
    exact congrArg _ (funext fun r ↦ ih r f)
  | loop body s next ihBody ih => exact congrArg _ (funext fun b ↦ ih b f)
  | catchUnwind body next ihBody ih => exact congrArg _ (funext fun b ↦ ih b f)

end Prog

namespace Machine

variable {I : Interface} (M : Machine I) {α β γ σ W : Type}

/-- Programs that perform the same operation and then go on in the same way. -/
theorem exec_op_congr {o : I.Op} {f g : I.Answer o → Prog I α}
    (h : ∀ r w, M.exec (f r) w = M.exec (g r) w) (w : M.World) :
    M.exec (.op o f) w = M.exec (.op o g) w :=
  congrArg (andThen (M.step o w)) (funext fun r ↦ funext (h r))

/-- What an unrolled loop answers may be changed inside the loop or after it. -/
theorem unroll_map (g : β → γ) (body : σ → W → Outcome (σ ⊕ β) × W) (n : Nat) (s : σ) (w : W) :
    unroll (fun s w ↦ andThen (body s w) fun x w' ↦ (.returned (x.map id g), w')) n s w =
      andThen (unroll body n s w) fun b w' ↦ (.returned (g b), w') := by
  induction n generalizing s w with
  | zero => rfl
  | succ n ih =>
    rw [unroll, unroll, andThen_assoc, andThen_assoc]
    congr 1
    funext x w'
    cases x with
    | inl s' => exact ih s' w'
    | inr b => rfl

/-- What a loop answers may be changed inside the loop or after it. -/
theorem exec_iterate_map (g : β → γ) (body : σ → Prog I (σ ⊕ β)) (s : σ) (k : γ → Prog I α)
    (w : M.World) :
    M.exec ((Prog.iterate (fun s ↦ (body s).bind fun x ↦ .pure (x.map id g)) s).bind k) w =
      M.exec ((Prog.iterate body s).bind fun b ↦ k (g b)) w := by
  have hbody : (fun s w ↦ M.exec ((body s).bind fun x ↦ .pure (x.map id g)) w) =
      fun s w ↦ andThen (M.exec (body s) w) fun x w' ↦ (.returned (x.map id g), w') := by
    funext s w
    exact M.exec_bind _ _ _
  have hloop : M.exec (Prog.iterate (fun s ↦ (body s).bind fun x ↦ .pure (x.map id g)) s) w =
      andThen (M.exec (Prog.iterate body s) w) fun b w' ↦ (.returned (g b), w') := by
    simp only [Prog.iterate, exec, hbody, unroll_map, andThen_assoc]
    rfl
  rw [exec_bind, exec_bind, hloop, andThen_assoc]
  rfl

end Machine

end Interactive
