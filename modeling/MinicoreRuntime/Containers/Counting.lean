import Mathlib.Tactic.Common

/-!
# Counting under caps

A walk over a tree that counts the nodes it enters, and gives up at a node that lies too deep or is
one too many. What it finds depends on the depths of the nodes only.

## Main definitions

* `Counting.visit`: one node of a walk.

## Main results

* `Counting.foldlM_visit_eq_ok`: a walk succeeds within both caps, and counts every node.
-/

namespace Counting

variable {ε : Type}

/-- Enter a node: give up where it is too deep or one too many, else count it. -/
def visit (tooDeep tooMany : ε) (maxDepth maxNodes nodes depth : Nat) : Except ε Nat :=
  if depth > maxDepth then .error tooDeep
  else if nodes + 1 > maxNodes then .error tooMany
  else .ok (nodes + 1)

/-- What comes after a node is reached where the node is counted. -/
theorem bind_visit {α : Type} (tooDeep tooMany : ε) (maxDepth maxNodes nodes depth : Nat)
    (next : Nat → Except ε α) :
    (visit tooDeep tooMany maxDepth maxNodes nodes depth).bind next =
      if depth > maxDepth then .error tooDeep
      else if nodes + 1 > maxNodes then .error tooMany
      else next (nodes + 1) := by
  unfold visit
  split
  · rfl
  · split <;> rfl

theorem visit_eq_ok {tooDeep tooMany : ε} {maxDepth maxNodes nodes depth total : Nat} :
    visit tooDeep tooMany maxDepth maxNodes nodes depth = .ok total ↔
      depth ≤ maxDepth ∧ nodes + 1 ≤ maxNodes ∧ total = nodes + 1 := by
  unfold visit
  split
  · exact iff_of_false (by simp) fun h ↦ by omega
  · split
    · exact iff_of_false (by simp) fun h ↦ by omega
    · simp only [Except.ok.injEq]
      omega

/-- A walk succeeds if and only if no node is too deep and the nodes are not too many; it then has
counted all of them. -/
theorem foldlM_visit_eq_ok {tooDeep tooMany : ε} {maxDepth maxNodes : Nat} {depths : List Nat}
    {nodes total : Nat} (hnodes : nodes ≤ maxNodes) :
    depths.foldlM (visit tooDeep tooMany maxDepth maxNodes) nodes = .ok total ↔
      (∀ depth ∈ depths, depth ≤ maxDepth) ∧ nodes + depths.length ≤ maxNodes ∧
        total = nodes + depths.length := by
  induction depths generalizing nodes with
  | nil =>
    simp only [List.foldlM_nil, List.not_mem_nil, false_implies, implies_true, List.length_nil,
      Nat.add_zero, true_and]
    show Except.ok nodes = Except.ok total ↔ _
    rw [Except.ok.injEq]
    omega
  | cons depth depths ih =>
    rw [List.foldlM_cons, List.forall_mem_cons, List.length_cons]
    cases hvisit : visit tooDeep tooMany maxDepth maxNodes nodes depth with
    | error e =>
      -- The walk gives up here, and one of the caps is exceeded.
      refine iff_of_false (by simp [bind, Except.bind]) fun h ↦ ?_
      have hok : visit tooDeep tooMany maxDepth maxNodes nodes depth = .ok (nodes + 1) :=
        visit_eq_ok.mpr ⟨h.1.1, by omega, rfl⟩
      rw [hvisit] at hok
      exact absurd hok (by simp)
    | ok nodes' =>
      obtain ⟨hdepth, hle, rfl⟩ := visit_eq_ok.mp hvisit
      show depths.foldlM _ (nodes + 1) = Except.ok total ↔ _
      rw [ih hle]
      constructor
      · rintro ⟨hrest, htotal, rfl⟩
        exact ⟨⟨hdepth, hrest⟩, by omega, by omega⟩
      · rintro ⟨⟨-, hrest⟩, htotal, rfl⟩
        exact ⟨hrest, by omega, by omega⟩

end Counting
