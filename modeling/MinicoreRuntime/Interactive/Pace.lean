import MinicoreRuntime.Interactive.Monitor

/-!
# The pace of a program

How many operations a program performs between two moments of a kind. A pace counts operations; some
answers start the count again, and others pay for operations to come, because of what they bring.
A program that never counts more than a bound reacts: between two answers that start the count
again it performs no more operations than the bound, plus what was paid for.

## Main definitions

* `Pace`, `Pace.after`: how operations are counted.
* `Pace.monitor`: the monitor that allows no more than a bound.
* `Pace.Paced`: from which count a program starts, and with which it ends.

## Main results

* `Pace.paced_bind`, `Pace.paced_iterate`, `Pace.paced_catchUnwind`: the rules.
* `Pace.length_le`: a stretch of an accepted trace that never starts the count again is short.
-/

namespace Interactive

variable {I : Interface} {α β σ : Type}

/-- A way to count operations by their answers. -/
structure Pace (I : Interface) where
  /-- Whether the count starts again after the answer. -/
  restarts : (o : I.Op) → I.Answer o → Bool
  /-- How many operations the answer pays for. -/
  credit : (o : I.Op) → I.Answer o → Nat

namespace Pace

variable (pace : Pace I)

/-- The count after an operation. -/
def after (count : Nat) (o : I.Op) (r : I.Answer o) : Nat :=
  if pace.restarts o r then 0 else count + 1 - pace.credit o r

theorem after_mono {count count' : Nat} (h : count ≤ count') (o : I.Op) (r : I.Answer o) :
    pace.after count o r ≤ pace.after count' o r := by
  unfold after
  split
  · exact Nat.le_refl 0
  · exact Nat.sub_le_sub_right (Nat.add_le_add_right h 1) _

theorem after_le_succ (count : Nat) (o : I.Op) (r : I.Answer o) :
    pace.after count o r ≤ count + 1 := by
  unfold after
  split
  · exact Nat.zero_le _
  · exact Nat.sub_le _ _

section Traces

variable {ν : Type}

/-- What the answers of a trace pay for. -/
def credits : List (Entry I ν) → Nat
  | [] => 0
  | e :: trace => pace.credit e.op e.answer + credits trace

/-- The monitor that allows no more than `bound` operations without a restart. -/
abbrev monitor (ν : Type) (bound : Nat) : Monitor I ν where
  State := Nat
  init := 0
  allowed count _ := count < bound
  expects _ _ _ _ := True
  next count o _ r := pace.after count o r

variable {pace} {bound : Nat}

theorem run_le {trace : List (Entry I ν)} (h : (pace.monitor ν bound).Accepts trace) :
    (pace.monitor ν bound).run trace ≤ bound := by
  refine Monitor.Accepts.invariant (pace.monitor ν bound) (J := fun count ↦ count ≤ bound)
    (Nat.zero_le bound) ?_ h
  intro count o n r _ hallowed _
  exact Nat.le_trans (pace.after_le_succ count o r) hallowed

/-- Without a restart the count and what was paid for make up for every operation. -/
theorem length_le_run (newer older : List (Entry I ν))
    (hnewer : ∀ e ∈ newer, pace.restarts e.op e.answer = false) :
    newer.length ≤ (pace.monitor ν bound).run (newer ++ older) +
      pace.credits newer := by
  induction newer with
  | nil => exact Nat.zero_le _
  | cons e newer ih =>
    have hpast := ih fun e' he' ↦ hnewer e' (List.mem_cons_of_mem e he')
    have hcount : pace.after ((pace.monitor ν bound).run (newer ++ older)) e.op e.answer =
        (pace.monitor ν bound).run (newer ++ older) + 1 -
          pace.credit e.op e.answer := by
      unfold after
      rw [hnewer e List.mem_cons_self, if_neg Bool.false_ne_true]
    show newer.length + 1 ≤ pace.after ((pace.monitor ν bound).run (newer ++ older)) e.op e.answer +
      (pace.credit e.op e.answer + pace.credits newer)
    rw [hcount]
    omega

/-- A stretch of an accepted trace that never starts the count again is short. -/
theorem length_le {newer older : List (Entry I ν)}
    (h : (pace.monitor ν bound).Accepts (newer ++ older))
    (hnewer : ∀ e ∈ newer, pace.restarts e.op e.answer = false) :
    newer.length ≤ bound + pace.credits newer :=
  Nat.le_trans (length_le_run newer older hnewer) (Nat.add_le_add_right (run_le h) _)

end Traces

/-! ### Programs -/

/-- From a count of at most `a` the program stays below `bound`; it returns `x` with a count of at
most `c x`, and unwinds with one of at most `limit`. -/
def Paced (ν : Type) (bound limit a : Nat) (p : Prog I α) (c : α → Nat) : Prop :=
  ∀ count : Nat, count ≤ a →
    (pace.monitor ν bound).wp p ⟨fun x s ↦ s ≤ c x, fun s ↦ s ≤ limit⟩ count

section Rules

variable {pace} {ν : Type} {bound limit limit' a a' : Nat} {c c' : α → Nat}

theorem paced_pure {x : α} (h : a ≤ c x) : pace.Paced ν bound limit a (.pure x) c :=
  fun _ hcount ↦ Nat.le_trans hcount h

theorem paced_panic (h : a ≤ limit) : pace.Paced ν bound limit a (.panic : Prog I α) c :=
  fun _ hcount ↦ Nat.le_trans hcount h

/-- The rule of consequence. -/
theorem paced_mono {p : Prog I α} (h : pace.Paced ν bound limit a p c) (ha : a' ≤ a)
    (hc : ∀ x, c x ≤ c' x) : pace.Paced ν bound limit a' p c' := by
  intro count hcount
  refine Monitor.wp_mono _ (h count (Nat.le_trans hcount ha)) ?_ fun _ hs ↦ hs
  exact fun x s hs ↦ Nat.le_trans hs (hc x)

/-- The rule of an operation followed by the rest of a program. -/
theorem paced_op {o : I.Op} {f : I.Answer o → Prog I α} (hlimit : limit < bound) (ha : a ≤ limit)
    (hf : ∀ r, pace.Paced ν bound limit (pace.after a o r) (f r) c) :
    pace.Paced ν bound limit a ((Prog.call o).bind f) c := by
  intro count hcount
  refine ⟨Nat.lt_of_le_of_lt (Nat.le_trans hcount ha) hlimit, Nat.le_trans hcount ha,
    fun n r _ ↦ ?_⟩
  exact hf r _ (pace.after_mono hcount o r)

/-- The rule of sequencing. -/
theorem paced_bind {p : Prog I α} {f : α → Prog I β} {d : β → Nat}
    (hp : pace.Paced ν bound limit a p c) (hf : ∀ x, pace.Paced ν bound limit (c x) (f x) d) :
    pace.Paced ν bound limit a (p.bind f) d := by
  intro count hcount
  rw [Monitor.wp_bind]
  exact Monitor.wp_mono _ (hp count hcount) (fun x s hs ↦ hf x s hs) fun _ hs ↦ hs

/-- The rule of loops: each round gives back what it was entered with. -/
theorem paced_iterate {body : σ → Prog I (σ ⊕ β)} {i : σ} {d : β → Nat}
    (h : ∀ j, pace.Paced ν bound limit a (body j) fun x ↦ x.elim (fun _ ↦ a) d) :
    pace.Paced ν bound limit a (Prog.iterate body i) d := by
  intro count hcount
  refine ⟨fun _ s ↦ s ≤ a, hcount, fun j s hs ↦ ?_⟩
  refine Monitor.wp_mono _ (h j s hs) ?_ fun _ hs' ↦ hs'
  rintro (j' | b) s' hs'
  · exact hs'
  · exact hs'

/-- The rule of catching: an unwinding goes on from the limit of the part that unwound. -/
theorem paced_catchUnwind {m : Nat} {body : Prog I β} {next : Option β → Prog I α} {d : β → Nat}
    (hbody : pace.Paced ν bound m a body d)
    (hreturned : ∀ b, pace.Paced ν bound limit' (d b) (next (some b)) c)
    (hunwound : pace.Paced ν bound limit' m (next none) c) :
    pace.Paced ν bound limit' a (.catchUnwind body next) c := by
  intro count hcount
  rw [Monitor.wp]
  refine Monitor.wp_mono _ (hbody count hcount) ?_ ?_
  · exact fun b s hs ↦ hreturned b s hs
  · exact fun s hs ↦ hunwound s hs

end Rules

end Pace

end Interactive
