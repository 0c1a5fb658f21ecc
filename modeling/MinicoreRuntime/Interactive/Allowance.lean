import Mathlib.Algebra.Order.Monoid.Canonical.Basic
import MinicoreRuntime.Interactive.Monitor

/-!
# Allowances

Operations that have to be paid for. Every operation has a price, and an answer may grant funds for
operations to come. A program that can pay for whatever it performs never spends more than it was
given and granted. Funds are elements of an ordered monoid, so that they may be of several kinds at
once.

## Main definitions

* `Allowance`: what operations cost, and what their answers grant.
* `Allowance.spent`, `Allowance.granted`: what a trace cost and granted.
* `Allowance.Affords`: with which funds a program starts, and with which it ends.

## Main results

* `Allowance.affords_bind`, `Allowance.affords_iterate`, `Allowance.affords_catchUnwind`: the rules.
* `Allowance.spent_le`: an accepted trace spends no more than its funds.
-/

namespace Interactive

variable {I : Interface} {V : Type} {α β σ : Type}

/-- What operations cost, and what their answers grant. -/
structure Allowance (I : Interface) (V : Type) where
  price : I.Op → V
  grant : (o : I.Op) → I.Answer o → V

/-- What was granted and what was spent. -/
structure Account (V : Type) where
  granted : V
  spent : V

variable [AddCommMonoid V] [PartialOrder V]

namespace Account

/-- At least these funds are left. -/
def Holds (s : Account V) (v : V) : Prop := s.spent + v ≤ s.granted

theorem Holds.mono [IsOrderedAddMonoid V] {s : Account V} {v v' : V} (h : s.Holds v)
    (hle : v' ≤ v) : s.Holds v' :=
  le_trans (add_le_add le_rfl hle) h

/-- Paying a price, for which something may be granted. -/
theorem Holds.pay [IsOrderedAddMonoid V] {s : Account V} {price grant v : V}
    (h : s.Holds (price + v)) : Holds ⟨s.granted + grant, s.spent + price⟩ (v + grant) := by
  show s.spent + price + (v + grant) ≤ s.granted + grant
  calc
    s.spent + price + (v + grant) = s.spent + (price + v) + grant := by
      rw [add_assoc s.spent, ← add_assoc price, ← add_assoc s.spent]
    _ ≤ s.granted + grant := add_le_add h le_rfl

end Account

namespace Allowance

variable (A : Allowance I V) {ν : Type}

/-- The monitor that allows the operations that can be paid for. -/
abbrev monitor (ν : Type) (init : V) : Monitor I ν where
  State := Account V
  init := ⟨init, 0⟩
  allowed s o := s.Holds (A.price o)
  expects _ _ _ _ := True
  next s o _ r := ⟨s.granted + A.grant o r, s.spent + A.price o⟩

/-- What the operations of a trace cost. -/
def spent : List (Entry I ν) → V
  | [] => 0
  | e :: trace => spent trace + A.price e.op

/-- What the answers of a trace granted. -/
def granted : List (Entry I ν) → V
  | [] => 0
  | e :: trace => granted trace + A.grant e.op e.answer

/-- With the funds `a` the program can pay for everything it performs, and it has `c x` left when it
returns `x`. What it has besides is not touched. -/
def Affords (ν : Type) (init a : V) (p : Prog I α) (c : α → V) : Prop :=
  ∀ extra s, Account.Holds s (a + extra) →
    (A.monitor ν init).wp p ⟨fun x s' ↦ s'.Holds (c x + extra), fun s' ↦ s'.Holds extra⟩ s

/-! ### Traces -/

variable {A} {init : V}

theorem run_eq (trace : List (Entry I ν)) :
    (A.monitor ν init).run trace = ⟨init + A.granted trace, A.spent trace⟩ := by
  induction trace with
  | nil => exact congrArg (Account.mk · 0) (add_zero init).symm
  | cons e trace ih =>
    rw [Monitor.run_cons, ih, granted, spent, ← add_assoc]

/-! ### Programs -/

variable {a a' b : V} {c c' : α → V}

/-- The rule of sequencing. -/
theorem affords_bind {p : Prog I α} {f : α → Prog I β} {d : β → V}
    (hp : A.Affords ν init a p c) (hf : ∀ x, A.Affords ν init (c x) (f x) d) :
    A.Affords ν init a (p.bind f) d := by
  intro extra s hs
  rw [Monitor.wp_bind]
  exact Monitor.wp_mono _ (hp extra s hs) (fun x s' hs' ↦ hf x extra s' hs') fun _ hs' ↦ hs'

/-- The rule of sequencing, where the second part relies on what the first returns. -/
theorem affords_bind_returns {p : Prog I α} {R : α → Prop} {f : α → Prog I β} {d : β → V}
    (hp : A.Affords ν init a p c) (hR : p.Returns R)
    (hf : ∀ x, R x → A.Affords ν init (c x) (f x) d) : A.Affords ν init a (p.bind f) d := by
  intro extra s hs
  rw [Monitor.wp_bind]
  refine Monitor.wp_mono _ (Monitor.wp_and_returns _ (hp extra s hs) hR) ?_ fun _ hs' ↦ hs'
  exact fun x s' hs' ↦ hf x hs'.2 extra s' hs'.1

/-- The rule of loops: funds that the loop variable determines. -/
theorem affords_iterate {body : σ → Prog I (σ ⊕ β)} {d : β → V} (left : σ → V) (i : σ)
    (h : ∀ j, A.Affords ν init (left j) (body j) fun x ↦ x.elim left d) :
    A.Affords ν init (left i) (Prog.iterate body i) d := by
  intro extra s hs
  refine ⟨fun j s' ↦ s'.Holds (left j + extra), hs, fun j s' hs' ↦ ?_⟩
  refine Monitor.wp_mono _ (h j extra s' hs') ?_ fun _ hs'' ↦ hs''
  rintro (j' | b) s'' hs''
  · exact hs''
  · exact hs''

/-- The rule of catching: an unwinding leaves only what the program had besides. -/
theorem affords_catchUnwind {body : Prog I β} {next : Option β → Prog I α} {d : β → V}
    (hbody : A.Affords ν init a body d)
    (hreturned : ∀ x, A.Affords ν init (d x) (next (some x)) c)
    (hunwound : A.Affords ν init 0 (next none) c) :
    A.Affords ν init a (.catchUnwind body next) c := by
  intro extra s hs
  rw [Monitor.wp]
  refine Monitor.wp_mono _ (hbody extra s hs) ?_ ?_
  · exact fun x s' hs' ↦ hreturned x extra s' hs'
  · intro s' hs'
    apply hunwound extra s'
    rwa [zero_add]

/-- The rule of catching, where funds are put aside for the case of an unwinding. -/
theorem affords_catchUnwind_reserve {body : Prog I β} {next : Option β → Prog I α} {d : β → V}
    (hbody : A.Affords ν init a body d)
    (hreturned : ∀ x, A.Affords ν init (d x + b) (next (some x)) c)
    (hunwound : A.Affords ν init b (next none) c) :
    A.Affords ν init (a + b) (.catchUnwind body next) c := by
  intro extra s hs
  rw [Monitor.wp]
  rw [add_assoc] at hs
  refine Monitor.wp_mono _ (hbody (b + extra) s hs) ?_ ?_
  · intro x s' hs'
    apply hreturned x extra s'
    rwa [add_assoc]
  · exact fun s' hs' ↦ hunwound extra s' hs'

variable [IsOrderedAddMonoid V]

theorem affords_pure {x : α} (h : c x ≤ a) : A.Affords ν init a (.pure x) c :=
  fun _ _ hs ↦ hs.mono (add_le_add h le_rfl)

/-- The rule of consequence. -/
theorem affords_mono {p : Prog I α} (h : A.Affords ν init a p c) (ha : a ≤ a')
    (hc : ∀ x, c' x ≤ c x) : A.Affords ν init a' p c' := by
  intro extra s hs
  refine Monitor.wp_mono _ (h extra s (hs.mono (add_le_add ha le_rfl))) ?_ fun _ hs' ↦ hs'
  exact fun x s' hs' ↦ hs'.mono (add_le_add (hc x) le_rfl)

variable [CanonicallyOrderedAdd V]

theorem affords_panic : A.Affords ν init a (.panic : Prog I α) c :=
  fun _ _ hs ↦ hs.mono le_add_self

/-- Funds that a program has besides are still there when it returns. -/
theorem affords_frame {p : Prog I α} (h : A.Affords ν init a p c) (b : V) :
    A.Affords ν init (a + b) p fun x ↦ c x + b := by
  intro extra s hs
  rw [add_assoc] at hs
  refine Monitor.wp_mono _ (h (b + extra) s hs) (fun x s' hs' ↦ ?_) fun s' hs' ↦ ?_
  · show s'.Holds (c x + b + extra)
    rw [add_assoc]
    exact hs'
  · exact hs'.mono le_add_self

/-- The rule of an operation followed by the rest of a program: after its price, `b` is left. -/
theorem affords_op {o : I.Op} {f : I.Answer o → Prog I α} (hprice : A.price o + b ≤ a)
    (hf : ∀ r, A.Affords ν init (b + A.grant o r) (f r) c) :
    A.Affords ν init a ((Prog.call o).bind f) c := by
  intro extra s hs
  have hpay : s.Holds (A.price o + (b + extra)) := by
    rw [← add_assoc]
    exact hs.mono (add_le_add hprice le_rfl)
  refine ⟨hpay.mono le_self_add, hs.mono le_add_self, fun n r _ ↦ hf r extra _ ?_⟩
  rw [add_right_comm]
  exact hpay.pay

/-- The rule of an operation without a price. What its answer grants is dropped. -/
theorem affords_free {o : I.Op} {f : I.Answer o → Prog I α} (ho : A.price o = 0)
    (hf : ∀ r, A.Affords ν init a (f r) c) : A.Affords ν init a ((Prog.call o).bind f) c := by
  refine affords_op (b := a) (by rw [ho, zero_add]) fun r ↦ ?_
  exact affords_mono (hf r) le_self_add fun _ ↦ le_rfl

/-- A program of operations without a price leaves its funds as they are. -/
theorem affords_of_uses {p : Prog I α} (hp : p.Uses fun o ↦ A.price o = 0) :
    A.Affords ν init a p fun _ ↦ a := by
  intro extra s hs
  refine Monitor.wp_mono _
    (Monitor.wp_of_uses _ (J := fun s : Account V ↦ s.Holds (a + extra)) ?_ hp hs)
    (fun _ _ hs' ↦ hs') fun _ hs' ↦ hs'.mono le_add_self
  intro s' o ho hs'
  have hpay : s'.Holds (A.price o + (a + extra)) := by
    rw [ho, zero_add]
    exact hs'
  exact ⟨hpay.mono le_self_add, fun n r _ ↦ hpay.pay.mono le_self_add⟩

/-! ### Executions -/

omit [IsOrderedAddMonoid V] in
/-- An accepted trace spends no more than it was given and granted. -/
theorem spent_le {trace : List (Entry I ν)} (h : (A.monitor ν init).Accepts trace) :
    A.spent trace ≤ init + A.granted trace := by
  have hrun := Monitor.Accepts.invariant (A.monitor ν init) (J := fun s ↦ s.spent ≤ s.granted)
    zero_le (fun s o n r _ hallowed _ ↦ le_trans hallowed le_self_add) h
  rwa [run_eq] at hrun

end Allowance

end Interactive
