import Mathlib.Data.List.Basic

/-!
# Justified histories

Histories that list the newest entry first, in which every entry is justified by the entries before
it. What is justified at the moment it happens stays so, whatever follows.

## Main definitions

* `Justified P`: every entry satisfies `P` of the entries before it.

## Main results

* `Justified.of_split`: what an entry of a justified history satisfies.
* `Justified.past`: what came before is justified.
-/

namespace Interactive

variable {ε : Type*} {P : List ε → ε → Prop}

/-- Every entry satisfies `P` of the entries before it. -/
def Justified (P : List ε → ε → Prop) : List ε → Prop
  | [] => True
  | e :: older => Justified P older ∧ P older e

@[simp]
theorem justified_nil : Justified P [] := trivial

@[simp]
theorem justified_cons {e : ε} {older : List ε} :
    Justified P (e :: older) ↔ Justified P older ∧ P older e := Iff.rfl

theorem Justified.past {newer older : List ε} (h : Justified P (newer ++ older)) :
    Justified P older := by
  induction newer with
  | nil => exact h
  | cons e newer ih => exact ih h.1

/-- An entry of a justified history satisfies `P` of the entries before it. -/
theorem Justified.of_split {newer older : List ε} {e : ε}
    (h : Justified P (newer ++ e :: older)) : P older e :=
  h.past.2

end Interactive
