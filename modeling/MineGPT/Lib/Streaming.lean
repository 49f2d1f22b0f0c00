import Mathlib.Data.List.Basic

/-!
# Append-only output of a loop

A loop that only ever appends to its output is given by its body, a function
from the loop state and the next item to the appended text and the next loop
state.  `emitAll` is the whole output.  Whatever follows, the output for the
items seen so far stays where it is: this is `emitAll_append`.

`AppendOnly f` states the same for any function on lists, whatever computes it.
-/

set_option autoImplicit false

namespace MineGPT.Lib.Streaming

variable {σ α β : Type}

def emitAll (body : σ → α → List β × σ) : σ → List α → List β
  | _, [] => []
  | s, x :: xs => (body s x).1 ++ emitAll body (body s x).2 xs

def stateAfter (body : σ → α → List β × σ) : σ → List α → σ
  | s, [] => s
  | s, x :: xs => stateAfter body (body s x).2 xs

theorem emitAll_append (body : σ → α → List β × σ) (s : σ) (xs ys : List α) :
    emitAll body s (xs ++ ys) =
      emitAll body s xs ++ emitAll body (stateAfter body s xs) ys := by
  induction xs generalizing s with
  | nil => rfl
  | cons x xs ih => simp [emitAll, stateAfter, ih]

theorem emitAll_concat (body : σ → α → List β × σ) (s : σ) (xs : List α) (x : α) :
    emitAll body s (xs ++ [x]) = emitAll body s xs ++ (body (stateAfter body s xs) x).1 := by
  rw [emitAll_append]
  simp [emitAll]

theorem forall_mem_emitAll {body : σ → α → List β × σ} {good : σ → Prop} {P : β → Prop}
    (keep : ∀ s x, good s → good (body s x).2)
    (each : ∀ s x, good s → ∀ b ∈ (body s x).1, P b) :
    ∀ (xs : List α) (s : σ), good s → ∀ b ∈ emitAll body s xs, P b := by
  intro xs
  induction xs with
  | nil => intro s _ b member; simp [emitAll] at member
  | cons x xs ih =>
      intro s ok b member
      rcases List.mem_append.mp member with here | later
      · exact each s x ok b here
      · exact ih _ (keep s x ok) b later

def AppendOnly (f : List α → List β) : Prop := ∀ xs ys, f xs <+: f (xs ++ ys)

theorem appendOnly_emitAll (body : σ → α → List β × σ) (s : σ) :
    AppendOnly (emitAll body s) := by
  intro xs ys
  rw [emitAll_append]
  exact List.prefix_append _ _

theorem appendOnly_flatMap (f : α → List β) : AppendOnly (List.flatMap f) := by
  intro xs ys
  rw [List.flatMap_append]
  exact List.prefix_append _ _

theorem AppendOnly.prepend {f : List α → List β} (fixed : List β) (grows : AppendOnly f) :
    AppendOnly (fun xs => fixed ++ f xs) := by
  intro xs ys
  exact (List.prefix_append_right_inj fixed).mpr (grows xs ys)

def GrowsWith (f : List α → List β) (x : α) : Prop :=
  ∀ xs, (f xs).length < (f (xs ++ [x])).length

theorem growsWith_flatMap {f : α → List β} {x : α} (adds : f x ≠ []) :
    GrowsWith (List.flatMap f) x := by
  intro xs
  have positive := List.length_pos_of_ne_nil adds
  simp only [List.flatMap_append, List.flatMap_cons, List.flatMap_nil, List.append_nil,
    List.length_append]
  omega

theorem growsWith_emitAll {body : σ → α → List β × σ} {s : σ} {x : α}
    (adds : ∀ state, (body state x).1 ≠ []) : GrowsWith (emitAll body s) x := by
  intro xs
  have positive := List.length_pos_of_ne_nil (adds (stateAfter body s xs))
  rw [emitAll_concat, List.length_append]
  omega

theorem GrowsWith.prepend {f : List α → List β} {x : α} (fixed : List β)
    (grows : GrowsWith f x) : GrowsWith (fun xs => fixed ++ f xs) x := by
  intro xs
  simp only [List.length_append]
  exact Nat.add_lt_add_left (grows xs) _

def AddsPart (f : List α → List β) (x : α) (part : List β) : Prop :=
  ∀ xs, ∃ added, f (xs ++ [x]) = f xs ++ added ∧ part <:+: added

theorem addsPart_flatMap {f : α → List β} {x : α} {part : List β} (inside : part <:+: f x) :
    AddsPart (List.flatMap f) x part := by
  intro xs
  exact ⟨f x, by simp, inside⟩

theorem addsPart_emitAll {body : σ → α → List β × σ} {s : σ} {x : α} {part : List β}
    (inside : ∀ state, part <:+: (body state x).1) : AddsPart (emitAll body s) x part := by
  intro xs
  exact ⟨_, emitAll_concat body s xs x, inside _⟩

theorem AddsPart.prepend {f : List α → List β} {x : α} {part : List β} (fixed : List β)
    (adds : AddsPart f x part) : AddsPart (fun xs => fixed ++ f xs) x part := by
  intro xs
  obtain ⟨added, split, inside⟩ := adds xs
  exact ⟨added, by simp only [split, List.append_assoc], inside⟩

/-! ## Inserting items

An item may bring out what the loop state holds, so the same item can add less
text later than it would have added before.  A potential on the state bounds
what it holds. -/

/-- Items put in front of the last one make the output strictly longer, if the
first of them and the last one satisfy `First` and the others satisfy `Other`. -/
def LongerWith (f : List α → List β) (First Other : α → Prop) : Prop :=
  ∀ earlier x xs last, First x → (∀ y ∈ xs, Other y) → First last →
    (f (earlier ++ [last])).length < (f (earlier ++ x :: xs ++ [last])).length

theorem longerWith_flatMap {f : α → List β} {First Other : α → Prop}
    (adds : ∀ x, First x → f x ≠ []) : LongerWith (List.flatMap f) First Other := by
  intro earlier x xs last first _ _
  have positive := List.length_pos_of_ne_nil (adds x first)
  simp only [List.flatMap_append, List.flatMap_cons, List.flatMap_nil, List.append_nil,
    List.length_append]
  omega

theorem potential_emitAll {body : σ → α → List β × σ} {potential : σ → Nat} {Other : α → Prop}
    (keep : ∀ s y, Other y → potential s ≤ (body s y).1.length + potential (body s y).2) :
    ∀ (xs : List α) (s : σ), (∀ y ∈ xs, Other y) →
      potential s ≤ (emitAll body s xs).length + potential (stateAfter body s xs) := by
  intro xs
  induction xs with
  | nil => intro s _; simp [emitAll, stateAfter]
  | cons y xs ih =>
      intro s others
      have here := keep s y (others y (by simp))
      have later := ih (body s y).2 fun z member => others z (by simp [member])
      simp only [emitAll, stateAfter, List.length_append]
      omega

theorem longerWith_emitAll {body : σ → α → List β × σ} {s : σ} {First Other : α → Prop}
    (potential : σ → Nat) (base : α → Nat)
    (first : ∀ s x, First x → (body s x).1.length = potential s + base x)
    (positive : ∀ x, First x → 0 < base x)
    (keep : ∀ s y, Other y → potential s ≤ (body s y).1.length + potential (body s y).2) :
    LongerWith (emitAll body s) First Other := by
  intro earlier x xs last isFirst others lastFirst
  have adds := first (stateAfter body s earlier) x isFirst
  have something := positive x isFirst
  have spent := potential_emitAll keep xs (body (stateAfter body s earlier) x).2 others
  rw [emitAll_concat, List.append_assoc, emitAll_append, List.cons_append]
  simp only [emitAll, List.length_append, first _ last lastFirst, emitAll_append, adds,
    List.append_nil]
  omega

theorem LongerWith.prepend {f : List α → List β} {First Other : α → Prop} (fixed : List β)
    (longer : LongerWith f First Other) : LongerWith (fun xs => fixed ++ f xs) First Other := by
  intro earlier x xs last first others lastFirst
  simp only [List.length_append]
  exact Nat.add_lt_add_left (longer earlier x xs last first others lastFirst) _

end MineGPT.Lib.Streaming
