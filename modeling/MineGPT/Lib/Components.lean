import Mathlib.Data.List.Basic

/-!
# A list of components of which one moves

The components of a machine stand in a list; a step replaces the one at a place.
-/

set_option autoImplicit false

namespace MineGPT.Lib.Components

variable {α β : Type}

theorem getElem?_set_cases {l : List α} {k j : Nat} {b c : α}
    (there : (l.set k b)[j]? = some c) : k = j ∧ b = c ∨ k ≠ j ∧ l[j]? = some c := by
  by_cases here : k = j
  · subst here
    have inside : k < l.length := by
      have := (List.getElem?_eq_some_iff.mp there).1
      rwa [List.length_set] at this
    rw [List.getElem?_set_self inside, Option.some.injEq] at there
    exact Or.inl ⟨rfl, there⟩
  · rw [List.getElem?_set_ne here] at there
    exact Or.inr ⟨here, there⟩

theorem getElem?_concat_cases {l : List α} {k : Nat} {b c : α}
    (there : (l ++ [b])[k]? = some c) : l[k]? = some c ∨ k = l.length ∧ c = b := by
  by_cases inside : k < l.length
  · rw [List.getElem?_append_left inside] at there
    exact Or.inl there
  · rw [List.getElem?_append_right (Nat.le_of_not_lt inside),
      List.getElem?_singleton] at there
    split at there
    · rename_i last
      exact Or.inr ⟨by omega, (Option.some.inj there).symm⟩
    · cases there

theorem mem_set_self {l : List α} {k : Nat} {a : α} (b : α) (at_k : l[k]? = some a) :
    b ∈ l.set k b :=
  List.mem_of_getElem? (List.getElem?_set_self (List.getElem?_eq_some_iff.mp at_k).1)

theorem mem_set_of_ne {l : List α} {k : Nat} {a b c : α} (at_k : l[k]? = some a)
    (member : c ∈ l) (other : c ≠ a) : c ∈ l.set k b := by
  obtain ⟨i, at_i⟩ := List.mem_iff_getElem?.mp member
  have apart : k ≠ i := by
    rintro rfl
    exact other (Option.some.inj (at_i.symm.trans at_k))
  exact List.mem_of_getElem? ((List.getElem?_set_ne apart).trans at_i)

/-! ## What the components hold -/

theorem mem_filterMap_of_getElem? {f : α → Option β} {l : List α} {k : Nat} {a : α}
    (at_k : l[k]? = some a) (b : β) :
    b ∈ l.filterMap f ↔ f a = some b ∨ b ∈ (l.eraseIdx k).filterMap f := by
  simp only [List.mem_filterMap, List.mem_eraseIdx_iff_getElem?]
  constructor
  · rintro ⟨c, member, value⟩
    obtain ⟨i, at_i⟩ := List.mem_iff_getElem?.mp member
    by_cases here : i = k
    · rw [here, at_k] at at_i
      exact Or.inl (Option.some.inj at_i ▸ value)
    · exact Or.inr ⟨c, ⟨i, here, at_i⟩, value⟩
  · rintro (here | ⟨c, ⟨i, _, at_i⟩, value⟩)
    · exact ⟨a, List.mem_of_getElem? at_k, here⟩
    · exact ⟨c, List.mem_of_getElem? at_i, value⟩

theorem mem_filterMap_set {f : α → Option β} {l : List α} {k : Nat} {a a' : α}
    (at_k : l[k]? = some a) (b : β) :
    b ∈ (l.set k a').filterMap f ↔ f a' = some b ∨ b ∈ (l.eraseIdx k).filterMap f := by
  have inside := (List.getElem?_eq_some_iff.mp at_k).1
  have at_k' : (l.set k a')[k]? = some a' := List.getElem?_set_self inside
  rw [mem_filterMap_of_getElem? at_k', List.eraseIdx_set_eq]

end MineGPT.Lib.Components
