import Mathlib.Algebra.GroupWithZero.Nat
import Mathlib.Data.Nat.Count
import Mathlib.Logic.Function.Basic

/-!
# Filling holes from the back

Of the places below `top` exactly `full` are taken.  Going through the places from
the front, a taken one is kept and a free one is filled with what a place from
`full` on holds.  `target i` is where the content of place `i` went, and `top` where
it stayed untouched.

`Compacting` is the state on the way, when everything in front of `front` is done.
-/

set_option autoImplicit false

namespace MineGPT.Lib.Compaction

variable {α : Type} (taken : α → Prop) (free : α)

/-- The contents of the taken places have moved, each to a place of its own, and nothing else
is there. -/
structure Relocated (before after : Nat → α) (place : Nat → Nat) : Prop where
  moved : ∀ i, taken (before i) → after (place i) = before i
  apart : ∀ i j, taken (before i) → taken (before j) → place i = place j → i = j
  nothingElse : ∀ j, taken (after j) → ∃ i, taken (before i) ∧ place i = j

structure Compacting [DecidablePred taken] (before after : Nat → α) (target : Nat → Nat)
    (top full front : Nat) : Prop where
  inside : front ≤ full
  under : full ≤ top
  done : ∀ i < front, target i = i ∧ taken (before i) ∧ after i = before i ∨
    target i = top ∧ ¬ taken (before i) ∧ ∃ k, full ≤ k ∧ k < top ∧ target k = i
  ahead : ∀ i, front ≤ i → i < full → target i = top ∧ after i = before i
  back : ∀ i, full ≤ i → i < top → target i = top ∧ after i = before i ∨
    target i < front ∧ ¬ taken (before (target i)) ∧ taken (before i) ∧
      after (target i) = before i ∧ after i = free
  apart : ∀ i j, full ≤ i → i < top → full ≤ j → j < top → target i < front →
    target i = target j → i = j
  beyond : ∀ i, top ≤ i → after i = before i ∧ ¬ taken (before i)
  counted : Nat.count (fun i => taken (after i)) top = full

section Count

variable {taken free} [DecidablePred taken]

theorem count_update_take {cells : Nat → α} {i : Nat} {value : α} (open' : ¬ taken (cells i))
    (fill : taken value) : ∀ n, Nat.count (fun k => taken (Function.update cells i value k)) n =
      Nat.count (fun k => taken (cells k)) n + if i < n then 1 else 0 := by
  intro n
  induction n with
  | zero => simp
  | succ n ih =>
      rw [Nat.count_succ, Nat.count_succ, ih]
      by_cases here : n = i
      · subst here
        simp [open', fill]
      · have same : Function.update cells i value n = cells n := Function.update_of_ne here _ _
        have place : i < n + 1 ↔ i < n := by omega
        simp only [same, place]
        omega

theorem count_update_free {cells : Nat → α} {i : Nat} {value : α} (held : taken (cells i))
    (empty : ¬ taken value) (n : Nat) :
    Nat.count (fun k => taken (cells k)) n =
      Nat.count (fun k => taken (Function.update cells i value k)) n + if i < n then 1 else 0 := by
  have back := @count_update_take α taken _ (Function.update cells i value) i (cells i)
    (by simpa using empty) held n
  simpa using back

theorem count_beyond {p : Nat → Prop} [DecidablePred p] {m n : Nat} (less : m ≤ n)
    (none : ∀ i, m ≤ i → ¬ p i) : Nat.count p n = Nat.count p m := by
  obtain ⟨rest, rfl⟩ := Nat.exists_eq_add_of_le less
  rw [Nat.count_add, Nat.count_iff_forall_not.mpr fun k _ => none (m + k) (Nat.le_add_right m k),
    Nat.add_zero]

theorem count_fill {cells : Nat → α} {front i n : Nat} (empty : ¬ taken free) (other : front ≠ i)
    (hole : ¬ taken (cells front)) (held : taken (cells i)) (front_lt : front < n) (lt : i < n) :
    Nat.count (fun k => taken (Function.update (Function.update cells front (cells i)) i free k)) n =
      Nat.count (fun k => taken (cells k)) n := by
  have filled : taken (Function.update cells front (cells i) i) := by
    rw [Function.update_of_ne other.symm]
    exact held
  have once := count_update_free filled empty n
  have twice := count_update_take hole held n
  rw [if_pos lt] at once
  rw [if_pos front_lt] at twice
  omega

end Count

section Steps

variable {taken free} [DecidablePred taken] {before after : Nat → α} {target : Nat → Nat}
  {top full front : Nat}

theorem compacting_start (before : Nat → α) {top full : Nat}
    (beyond : ∀ i, top ≤ i → ¬ taken (before i))
    (counted : Nat.count (fun i => taken (before i)) top = full) :
    Compacting taken free before before (fun _ => top) top full 0 where
  inside := Nat.zero_le full
  under := counted ▸ Nat.count_le _
  done := fun i less => absurd less (Nat.not_lt_zero i)
  ahead := fun _ _ _ => ⟨rfl, rfl⟩
  back := fun _ _ _ => Or.inl ⟨rfl, rfl⟩
  apart := fun _ _ _ _ _ _ less => absurd less (Nat.not_lt_zero top)
  beyond := fun i high => ⟨rfl, beyond i high⟩
  counted := counted

theorem Compacting.keep (c : Compacting taken free before after target top full front)
    (more : front < full) (held : taken (after front)) :
    Compacting taken free before after (Function.update target front front) top full
      (front + 1) := by
  have under := c.under
  have here := c.ahead front (Nat.le_refl _) more
  have elsewhere : ∀ i, i ≠ front → Function.update target front front i = target i :=
    fun i other => Function.update_of_ne other _ _
  refine ⟨more, c.under, ?_, ?_, ?_, ?_, c.beyond, c.counted⟩
  · intro i less
    by_cases same : i = front
    · subst same
      refine Or.inl ⟨Function.update_self .., ?_, here.2⟩
      exact here.2 ▸ held
    · rw [elsewhere i same]
      rcases c.done i (by omega) with stays | ⟨untouched, empty, k, low, high, went⟩
      · exact Or.inl stays
      · exact Or.inr ⟨untouched, empty, k, low, high, by rw [elsewhere k (by omega), went]⟩
  · intro i low high
    rw [elsewhere i (by omega)]
    exact c.ahead i (by omega) high
  · intro i low high
    rw [elsewhere i (by omega)]
    rcases c.back i low high with stays | ⟨less, rest⟩
    · exact Or.inl stays
    · exact Or.inr ⟨by omega, rest⟩
  · intro i j low high low' high' less same
    rw [elsewhere i (by omega)] at less same
    rw [elsewhere j (by omega)] at same
    refine c.apart i j low high low' high' ?_ same
    rcases c.back i low high with ⟨untouched, _⟩ | ⟨moved, _⟩
    · omega
    · exact moved

theorem Compacting.fill (c : Compacting taken free before after target top full front)
    (empty : ¬ taken free) (more : front < full) (hole : ¬ taken (after front)) {i : Nat}
    (low : full ≤ i) (high : i < top) (held : taken (after i)) :
    Compacting taken free before
      (Function.update (Function.update after front (after i)) i free)
      (Function.update target i front) top full (front + 1) := by
  have under := c.under
  have apart : i ≠ front := by omega
  have here := c.ahead front (Nat.le_refl _) more
  obtain ⟨untouched, same⟩ : target i = top ∧ after i = before i := by
    rcases c.back i low high with stays | ⟨_, _, _, _, gone⟩
    · exact stays
    · exact absurd (gone ▸ held) empty
  have elsewhere : ∀ k, k ≠ i → Function.update target i front k = target k :=
    fun k other => Function.update_of_ne other _ _
  have there : ∀ k, k ≠ i → k ≠ front →
      Function.update (Function.update after front (after i)) i free k = after k := by
    intro k other other'
    rw [Function.update_of_ne other, Function.update_of_ne other']
  have atFront : Function.update (Function.update after front (after i)) i free front = after i := by
    rw [Function.update_of_ne apart.symm, Function.update_self]
  have atBack : Function.update (Function.update after front (after i)) i free i = free :=
    Function.update_self ..
  refine ⟨more, c.under, ?_, ?_, ?_, ?_, ?_, ?_⟩
  · intro k less
    rw [elsewhere k (by omega)]
    by_cases new : k = front
    · subst new
      exact Or.inr ⟨here.1, here.2 ▸ hole, i, low, high, Function.update_self ..⟩
    · rw [there k (by omega) new]
      rcases c.done k (by omega) with stays | ⟨gone, none, source, low', high', went⟩
      · exact Or.inl stays
      · refine Or.inr ⟨gone, none, source, low', high', ?_⟩
        have other : source ≠ i := by
          rintro rfl
          omega
        rw [elsewhere source other, went]
  · intro k low' high'
    rw [elsewhere k (by omega), there k (by omega) (by omega)]
    exact c.ahead k (by omega) high'
  · intro k low' high'
    by_cases moved : k = i
    · subst moved
      rw [Function.update_self, atFront, atBack, ← same]
      exact Or.inr ⟨Nat.lt_succ_self _, here.2 ▸ hole, held, rfl, rfl⟩
    · rw [elsewhere k moved, there k moved (by omega)]
      rcases c.back k low' high' with stays | ⟨less, none, was, now, gone⟩
      · exact Or.inl stays
      · rw [there (target k) (by omega) (by omega)]
        exact Or.inr ⟨by omega, none, was, now, gone⟩
  · intro k j low' high' low'' high'' less equal
    by_cases first : k = i
    · by_cases second : j = i
      · rw [first, second]
      · rw [first, Function.update_self, elsewhere j second] at equal
        rcases c.back j low'' high'' with ⟨stays, _⟩ | ⟨moved, _⟩
        · omega
        · omega
    · rw [elsewhere k first] at less equal
      rcases c.back k low' high' with ⟨stays, _⟩ | ⟨moved, _⟩
      · omega
      · by_cases second : j = i
        · rw [second, Function.update_self] at equal
          omega
        · rw [elsewhere j second] at equal
          exact c.apart k j low' high' low'' high'' moved equal
  · intro k high'
    rw [there k (by omega) (by omega)]
    exact c.beyond k high'
  · rw [count_fill empty apart.symm hole held (by omega) high]
    exact c.counted

end Steps

section Results

variable {taken free} [DecidablePred taken] {before after : Nat → α} {target : Nat → Nat}
  {top full front : Nat}

theorem Compacting.held (c : Compacting taken free before after target top full front) {i : Nat}
    (less : i < front) : taken (after i) := by
  rcases c.done i less with ⟨_, held, same⟩ | ⟨_, _, k, low, high, went⟩
  · exact same.symm ▸ held
  · rcases c.back k low high with ⟨stays, _⟩ | ⟨_, _, held, now, _⟩
    · have inside := c.inside
      omega
    · rw [went] at now
      exact now.symm ▸ held

theorem Compacting.origin (c : Compacting taken free before after target top full front)
    (i : Nat) : after i = free ∨ ∃ k, after i = before k := by
  rcases Nat.lt_or_ge i front with less | later
  · rcases c.done i less with ⟨_, _, same⟩ | ⟨_, _, k, low, high, went⟩
    · exact Or.inr ⟨i, same⟩
    · rcases c.back k low high with ⟨stays, _⟩ | ⟨_, _, _, now, _⟩
      · have inside := c.inside
        omega
      · exact Or.inr ⟨k, went ▸ now⟩
  · rcases Nat.lt_or_ge i full with middle | back
    · exact Or.inr ⟨i, (c.ahead i later middle).2⟩
    · rcases Nat.lt_or_ge i top with high | beyond
      · rcases c.back i back high with ⟨_, same⟩ | ⟨_, _, _, _, gone⟩
        · exact Or.inr ⟨i, same⟩
        · exact Or.inl gone
      · exact Or.inr ⟨i, (c.beyond i beyond).1⟩

theorem Compacting.enough (c : Compacting taken free before after target top full front)
    {stop : Nat} (hole : ∀ i, front ≤ i → i < stop → ¬ taken (after i)) (inside : stop ≤ full)
    (ahead : front ≤ stop) :
    Nat.count (fun i => taken (after i)) full + (stop - front) ≤
      Nat.count (fun i => taken (after i)) top := by
  obtain ⟨length, rfl⟩ : ∃ n, stop = front + n := ⟨stop - front, by omega⟩
  obtain ⟨rest, total⟩ : ∃ n, full = front + length + n := ⟨full - (front + length), by omega⟩
  have upTo : Nat.count (fun i => taken (after i)) (front + length) ≤ front := by
    rw [Nat.count_add]
    have none : Nat.count (fun k => taken (after (front + k))) length = 0 :=
      Nat.count_iff_forall_not.mpr fun k less => hole (front + k) (by omega) (by omega)
    have most := Nat.count_le (fun i => taken (after i)) (n := front)
    omega
  have behind := Nat.count_le (fun k => taken (after (front + length + k))) (n := rest)
  have split := Nat.count_add (fun i => taken (after i)) (front + length) rest
  have counted := c.counted
  rw [← total] at split
  omega

theorem Compacting.ends (c : Compacting taken free before after target top full full) (i : Nat) :
    taken (after i) ↔ i < full := by
  refine ⟨fun held => ?_, fun less => c.held less⟩
  by_contra late
  obtain ⟨rest, total⟩ : ∃ n, top = full + n := ⟨top - full, by have under := c.under; omega⟩
  have inside : i < top := by
    by_contra high
    obtain ⟨same, none⟩ := c.beyond i (Nat.le_of_not_lt high)
    exact none (same ▸ held)
  have counted := c.counted
  have front : Nat.count (fun k => taken (after k)) full = full :=
    Nat.count_iff_forall.mpr fun _ less => c.held less
  rw [total, Nat.count_add, front] at counted
  have empty : Nat.count (fun k => taken (after (full + k))) rest = 0 := by omega
  have free := Nat.count_iff_forall_not.mp empty _ (show i - full < rest by omega)
  rw [Nat.add_sub_cancel' (by omega)] at free
  exact free held

def place (target : Nat → Nat) (top i : Nat) : Nat := if target i < top then target i else i

theorem Compacting.relocated (empty : ¬ taken free)
    (c : Compacting taken free before after target top full front) :
    Relocated taken before after (place target top) := by
  have inside := c.inside
  have under := c.under
  have stays : ∀ i, taken (before i) → place target top i = i ∧ after i = before i ∨
      full ≤ i ∧ i < top ∧ target i < front ∧ place target top i = target i ∧
        ¬ taken (before (target i)) ∧ after (target i) = before i := by
    intro i held
    unfold place
    rcases Nat.lt_or_ge i front with less | later
    · rcases c.done i less with ⟨same, _, kept⟩ | ⟨_, none, _⟩
      · rw [same, ite_self]
        exact Or.inl ⟨rfl, kept⟩
      · exact absurd held none
    · rcases Nat.lt_or_ge i full with middle | back
      · obtain ⟨untouched, kept⟩ := c.ahead i later middle
        rw [untouched, if_neg (Nat.lt_irrefl top)]
        exact Or.inl ⟨rfl, kept⟩
      · rcases Nat.lt_or_ge i top with high | beyond
        · rcases c.back i back high with ⟨untouched, kept⟩ | ⟨less, none, _, now, _⟩
          · rw [untouched, if_neg (Nat.lt_irrefl top)]
            exact Or.inl ⟨rfl, kept⟩
          · rw [if_pos (by omega)]
            exact Or.inr ⟨back, high, less, rfl, none, now⟩
        · exact absurd held (c.beyond i beyond).2
  refine ⟨?_, ?_, ?_⟩
  · intro i held
    rcases stays i held with ⟨same, kept⟩ | ⟨_, _, _, went, _, now⟩
    · rw [same, kept]
    · rw [went, now]
  · intro i j held held' equal
    rcases stays i held with ⟨same, _⟩ | ⟨back, high, less, went, none, _⟩
    · rcases stays j held' with ⟨same', _⟩ | ⟨_, _, _, went', none', _⟩
      · rw [same, same'] at equal
        exact equal
      · rw [same, went'] at equal
        exact absurd (equal ▸ held) none'
    · rcases stays j held' with ⟨same', _⟩ | ⟨back', high', _, went', _, _⟩
      · rw [went, same'] at equal
        exact absurd (equal.symm ▸ held') none
      · rw [went, went'] at equal
        exact c.apart i j back high back' high' less equal
  · intro j held
    rcases Nat.lt_or_ge j front with less | later
    · rcases c.done j less with ⟨same, was, _⟩ | ⟨_, _, k, low, high, went⟩
      · exact ⟨j, was, by rw [place, same, ite_self]⟩
      · rcases c.back k low high with ⟨untouched, _⟩ | ⟨_, _, was, _, _⟩
        · omega
        · exact ⟨k, was, by rw [place, went, if_pos (by omega)]⟩
    · have here : place target top j = j ∧ after j = before j := by
        unfold place
        rcases Nat.lt_or_ge j full with middle | back
        · obtain ⟨untouched, kept⟩ := c.ahead j later middle
          exact ⟨by rw [untouched, if_neg (Nat.lt_irrefl top)], kept⟩
        · rcases Nat.lt_or_ge j top with high | beyond
          · rcases c.back j back high with ⟨untouched, kept⟩ | ⟨_, _, _, _, gone⟩
            · exact ⟨by rw [untouched, if_neg (Nat.lt_irrefl top)], kept⟩
            · exact absurd (gone ▸ held) empty
          · exact absurd ((c.beyond j beyond).1 ▸ held) (c.beyond j beyond).2
      exact ⟨j, here.2 ▸ held, here.1⟩

end Results

end MineGPT.Lib.Compaction
