import Mathlib.Data.List.Basic

/-!
# Searching a ring for a free window

`search` looks for `n` consecutive free places of a ring of `size` places,
starting at `head`: a window that would run past the end restarts the search at
0, a window that meets a taken place restarts it behind that place, and the
search gives up once `size` places were tested.  The loop has no bound of its
own, so it takes fuel; `search_terminates` says how much is always enough.
-/

set_option autoImplicit false

namespace MineGPT.Lib.RingSearch

variable (taken : Nat → Bool) (size n : Nat)

def firstTaken (head : Nat) : Option Nat :=
  (List.range n).find? fun i => taken (head + i)

inductive Outcome where
  | found (head : Nat)
  | failed (head : Nat)
  deriving DecidableEq, Repr

def search : Nat → Nat → Nat → Option Outcome
  | 0, _, _ => none
  | fuel + 1, head, tested =>
    if size < head + n then search fuel 0 (tested + (size - head))
    else
      match firstTaken taken n head with
      | none => some (.found head)
      | some i =>
        if size ≤ tested + (i + 1) then some (.failed (head + (i + 1)))
        else search fuel (head + (i + 1)) (tested + (i + 1))

variable {taken size n}

theorem firstTaken_eq_none {head : Nat} :
    firstTaken taken n head = none ↔ ∀ i < n, taken (head + i) = false := by
  simp [firstTaken]

/-- A window that starts inside the ring costs one round, plus one more when it
has to restart at 0; every failed window tests at least one place. -/
theorem search_terminates (fits : n ≤ size) :
    ∀ (fuel head tested : Nat),
      2 * (size - tested) + (if size < head + n then 2 else 1) ≤ fuel →
      ∃ outcome, search taken size n fuel head tested = some outcome := by
  intro fuel
  induction fuel with
  | zero => intro head tested enough; split at enough <;> omega
  | succ fuel ih =>
      intro head tested enough
      simp only [search]
      split
      · rename_i past
        apply ih
        rw [if_pos past] at enough
        rw [if_neg (by omega)]
        omega
      · rename_i inside
        rw [if_neg inside] at enough
        cases window : firstTaken taken n head with
        | none => exact ⟨_, rfl⟩
        | some i =>
            simp only
            split
            · exact ⟨_, rfl⟩
            · apply ih
              split <;> omega

theorem search_found {fuel head tested start : Nat}
    (found : search taken size n fuel head tested = some (.found start)) :
    start + n ≤ size ∧ ∀ i < n, taken (start + i) = false := by
  induction fuel generalizing head tested with
  | zero => simp [search] at found
  | succ fuel ih =>
      simp only [search] at found
      split at found
      · exact ih found
      · rename_i inside
        cases window : firstTaken taken n head with
        | none =>
            rw [window] at found
            simp only [Option.some.injEq, Outcome.found.injEq] at found
            subst found
            exact ⟨by omega, firstTaken_eq_none.mp window⟩
        | some i =>
            rw [window] at found
            simp only at found
            split at found
            · simp at found
            · exact ih found

theorem search_failed {fuel head tested stop : Nat}
    (failed : search taken size n fuel head tested = some (.failed stop)) : stop ≤ size := by
  induction fuel generalizing head tested with
  | zero => simp [search] at failed
  | succ fuel ih =>
      simp only [search] at failed
      split at failed
      · exact ih failed
      · rename_i inside
        cases window : firstTaken taken n head with
        | none =>
            rw [window] at failed
            simp at failed
        | some i =>
            rw [window] at failed
            simp only at failed
            split at failed
            · simp only [Option.some.injEq, Outcome.failed.injEq] at failed
              have less := List.mem_range.mp (List.mem_of_find?_eq_some window)
              omega
            · exact ih failed

theorem search_of_free {fuel head tested : Nat} (inside : head + n ≤ size)
    (free : ∀ i < n, taken (head + i) = false) :
    search taken size n (fuel + 1) head tested = some (.found head) := by
  simp only [search]
  rw [if_neg (by omega), firstTaken_eq_none.mpr free]

/-- A search that gives up has met a taken place in every window that it still had to try:
the ones from the head on, and in front of it the ones where it did not start. -/
theorem search_complete {fuel head tested stop start : Nat} (inside : head ≤ size)
    (failed : search taken size n fuel head tested = some (.failed stop))
    (fits : start + n ≤ size)
    (ahead : head ≤ start ∧ start + tested < head + size ∨ start + tested < head) :
    ∃ i < n, taken (start + i) = true := by
  induction fuel generalizing head tested with
  | zero => simp [search] at failed
  | succ fuel ih =>
      simp only [search] at failed
      split at failed
      · exact ih (Nat.zero_le size) failed (by omega)
      · rename_i whole
        cases window : firstTaken taken n head with
        | none =>
            rw [window] at failed
            simp at failed
        | some i =>
            have less := List.mem_range.mp (List.mem_of_find?_eq_some window)
            have held : taken (head + i) = true := by simpa using List.find?_some window
            rw [window] at failed
            simp only at failed
            by_cases here : head ≤ start ∧ start ≤ head + i
            · refine ⟨head + i - start, by omega, ?_⟩
              rwa [Nat.add_sub_cancel' here.2]
            · split at failed
              · omega
              · exact ih (by omega) failed (by omega)

end MineGPT.Lib.RingSearch
