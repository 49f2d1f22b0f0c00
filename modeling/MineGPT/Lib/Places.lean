import Mathlib.Data.Finset.Range
import Mathlib.Data.Multiset.Range
import MineGPT.Lib.Compaction

/-!
# What the places hold

`held content n` are the contents of the first `n` places, however often and in
whatever order: `content i = none` is a free place.  An operation on the places one
by one is one on the contents, and a content may move to another place.
-/

set_option autoImplicit false

namespace MineGPT.Lib.Places

open MineGPT.Lib.Compaction

variable {β γ : Type}

def held (content : Nat → Option β) (n : Nat) : Multiset β :=
  (Multiset.range n).filterMap content

theorem held_congr {content content' : Nat → Option β} {n : Nat}
    (same : ∀ i < n, content i = content' i) : held content n = held content' n := by
  induction n with
  | zero => rfl
  | succ n ih =>
      have later := ih fun i less => same i (by omega)
      rw [held] at later ⊢
      rw [held, Multiset.range_succ, Multiset.filterMap_cons, Multiset.filterMap_cons, later,
        same n (Nat.lt_succ_self n)]
      rfl

theorem held_bind (content : Nat → Option β) (change : β → Option γ) (n : Nat) :
    held (fun i => (content i).bind change) n = (held content n).filterMap change :=
  (Multiset.filterMap_filterMap content change _).symm

theorem mem_held {content : Nat → Option β} {n : Nat} {value : β} :
    value ∈ held content n ↔ ∃ i < n, content i = some value := by
  simp [held, Multiset.mem_filterMap]

theorem held_filter (p : Nat → Bool) (f : Nat → β) (n : Nat) :
    held (fun i => if p i then some (f i) else none) n = ((List.range n).filter p).map f := by
  rw [held, ← Multiset.map_filter_eq_filterMap]
  simp [Multiset.range]

theorem card_held (content : Nat → Option β) (n : Nat) :
    (held content n).card = Nat.count (fun i => (content i).isSome) n := by
  induction n with
  | zero => rfl
  | succ n ih =>
      rw [held] at ih ⊢
      rw [Multiset.range_succ, Multiset.filterMap_cons, Multiset.card_add, ih, Nat.count_succ]
      cases content n <;> simp [Nat.add_comm]

theorem held_getElem? (values : List β) : held (fun k => values[k]?) values.length = values := by
  induction values with
  | nil => rfl
  | cons value rest ih =>
      have tail : held (fun k => (value :: rest)[1 + k]?) rest.length = rest := by
        rw [held_congr fun k _ => by rw [Nat.add_comm, List.getElem?_cons_succ]]
        exact ih
      unfold held at tail ⊢
      rw [List.length_cons, Nat.add_comm, Multiset.range_add, Multiset.filterMap_add,
        Multiset.filterMap_map]
      change _ + (Multiset.range rest.length).filterMap (fun k => (value :: rest)[1 + k]?) = _
      rw [tail]
      rfl

theorem held_fill {before after : Nat → Option β} {values : List β} {first n : Nat}
    (inside : first + values.length ≤ n)
    (free : ∀ k < values.length, before (first + k) = none)
    (filled : ∀ k < values.length, after (first + k) = values[k]?)
    (kept : ∀ i < n, i < first ∨ first + values.length ≤ i → after i = before i) :
    held after n = held before n + values := by
  obtain ⟨rest, rfl⟩ : ∃ m, n = first + (values.length + m) :=
    ⟨n - (first + values.length), by omega⟩
  have split : ∀ content : Nat → Option β, held content (first + (values.length + rest)) =
      held content first + (held (fun k => content (first + k)) values.length +
        held (fun k => content (first + (values.length + k))) rest) := by
    intro content
    unfold held
    rw [Multiset.range_add, Multiset.filterMap_add, Multiset.range_add values.length,
      Multiset.map_add, Multiset.filterMap_add, Multiset.map_map, Multiset.filterMap_map,
      Multiset.filterMap_map]
    rfl
  have front : held after first = held before first :=
    held_congr fun i less => kept i (by omega) (Or.inl less)
  have back : held (fun k => after (first + (values.length + k))) rest =
      held (fun k => before (first + (values.length + k))) rest :=
    held_congr fun k _ => kept _ (by omega) (Or.inr (by omega))
  have none : held (fun k => before (first + k)) values.length = 0 := by
    rw [Multiset.eq_zero_iff_forall_notMem]
    intro value member
    obtain ⟨k, less, here⟩ := mem_held.mp member
    rw [free k less] at here
    exact Option.some_ne_none value here.symm
  have block : held (fun k => after (first + k)) values.length = values := by
    rw [held_congr filled]
    exact held_getElem? values
  rw [split before, split after, front, back, none, block, Multiset.zero_add, Multiset.add_assoc,
    Multiset.add_comm (values : Multiset β)]

theorem held_relocated {before after : Nat → Option β} {place : Nat → Nat} {n : Nat}
    (relocated : Relocated (fun content : Option β => content.isSome) before after place)
    (inside : ∀ i, (before i).isSome → i < n) (inside' : ∀ i, (after i).isSome → i < n) :
    held after n = held before n := by
  have apart : ((Multiset.range n).filter fun i => (before i).isSome).map place =
      (Multiset.range n).filter fun j => (after j).isSome := by
    apply (Multiset.Nodup.ext ?_ ((Multiset.nodup_range n).filter _)).mpr
    · intro j
      simp only [Multiset.mem_map, Multiset.mem_filter, Multiset.mem_range]
      constructor
      · rintro ⟨i, ⟨_, some⟩, rfl⟩
        have there : (after (place i)).isSome := by rwa [relocated.moved i some]
        exact ⟨inside' _ there, there⟩
      · rintro ⟨_, some⟩
        obtain ⟨i, there, same⟩ := relocated.nothingElse j some
        exact ⟨i, ⟨inside i there, there⟩, same⟩
    · refine Multiset.Nodup.map_on ?_ ((Multiset.nodup_range n).filter _)
      intro i member j member' same
      exact relocated.apart i j (Multiset.mem_filter.mp member).2
        (Multiset.mem_filter.mp member').2 same
  have here : after = fun j => if (after j).isSome then after j else none := by
    funext j
    cases after j <;> rfl
  have there : before = fun i => if (before i).isSome then after (place i) else none := by
    funext i
    cases some : before i with
    | none => rfl
    | some value =>
        have moved := relocated.moved i (by rw [some, Option.isSome_some])
        rw [if_pos (by rfl), moved, some]
  calc held after n
      = (Multiset.range n).filterMap fun j => if (after j).isSome then after j else none := by
        rw [← here]
        rfl
    _ = ((Multiset.range n).filter fun j => (after j).isSome).filterMap after :=
        (Multiset.filterMap_filter _ _ _).symm
    _ = ((Multiset.range n).filter fun i => (before i).isSome).filterMap (after ∘ place) := by
        rw [← apart, Multiset.filterMap_map]
    _ = (Multiset.range n).filterMap fun i => if (before i).isSome then after (place i) else none :=
        Multiset.filterMap_filter _ _ _
    _ = held before n := by
        rw [← there]
        rfl

end MineGPT.Lib.Places
