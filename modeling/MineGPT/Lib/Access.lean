import Mathlib.Data.List.Basic

/-!
# Runs that read through an index

A program that walks over memory with an index, as C code does with a pointer.
A run is the list of the indices it has read, in order, and its result: a read
outside of the memory is a fault, and so is a loop that has used up its fuel.

`Holds` is total correctness with the bounds of the reads: the run comes to an
end with a value that satisfies the postcondition, and every index it has read
is in the region.
-/

set_option autoImplicit false

namespace MineGPT.Lib

namespace Access

inductive Fault where
  | outOfBounds
  | outOfFuel
  deriving DecidableEq, Repr

structure Run (α : Type) where
  reads : List Nat
  result : Except Fault α

end Access

def Access (β α : Type) : Type := List β → Access.Run α

namespace Access

variable {β σ α γ : Type}

def done (value : α) : Access β α := fun _ => ⟨[], .ok value⟩

def fault (reason : Fault) : Access β α := fun _ => ⟨[], .error reason⟩

def andThen (m : Access β α) (next : α → Access β γ) : Access β γ := fun memory =>
  match (m memory).result with
  | .error reason => ⟨(m memory).reads, .error reason⟩
  | .ok value => ⟨(m memory).reads ++ (next value memory).reads, (next value memory).result⟩

instance : Monad (Access β) where
  pure := done
  bind := andThen

def read (i : Nat) : Access β β := fun memory =>
  match memory[i]? with
  | none => ⟨[i], .error .outOfBounds⟩
  | some byte => ⟨[i], .ok byte⟩

/-- The body goes round again with `inl` and leaves the loop with `inr`. -/
def loop (body : σ → Access β (σ ⊕ α)) : Nat → σ → Access β α
  | 0, _ => fault .outOfFuel
  | fuel + 1, s => do
    match ← body s with
    | .inl next => loop body fuel next
    | .inr value => pure value

structure Holds (memory : List β) (region : Nat → Prop) (m : Access β α) (Q : α → Prop) :
    Prop where
  returns : ∃ value, (m memory).result = .ok value ∧ Q value
  inside : ∀ i ∈ (m memory).reads, region i

section Rules

variable {memory : List β} {region : Nat → Prop}

theorem bind_of_ok {m : Access β α} {next : α → Access β γ} {value : α}
    (returned : (m memory).result = .ok value) :
    (m >>= next) memory =
      ⟨(m memory).reads ++ (next value memory).reads, (next value memory).result⟩ := by
  show andThen m next memory = _
  rw [andThen, returned]

theorem bind_of_error {m : Access β α} {next : α → Access β γ} {reason : Fault}
    (failed : (m memory).result = .error reason) :
    (m >>= next) memory = ⟨(m memory).reads, .error reason⟩ := by
  show andThen m next memory = _
  rw [andThen, failed]

theorem holds_pure {value : α} {Q : α → Prop} (post : Q value) :
    Holds memory region (pure value) Q where
  returns := ⟨value, rfl, post⟩
  inside := by
    intro i member
    cases member

theorem holds_read {i : Nat} {byte : β} (there : memory[i]? = some byte) (allowed : region i) :
    Holds memory region (read i) (· = byte) where
  returns := ⟨byte, by rw [read, there], rfl⟩
  inside := by
    intro j member
    rw [read, there] at member
    rw [List.mem_singleton.mp member]
    exact allowed

theorem Holds.mono {m : Access β α} {P Q : α → Prop} (holds : Holds memory region m P)
    (weaker : ∀ value, P value → Q value) : Holds memory region m Q where
  returns := by
    obtain ⟨value, returned, post⟩ := holds.returns
    exact ⟨value, returned, weaker value post⟩
  inside := holds.inside

theorem Holds.bind {m : Access β α} {next : α → Access β γ} {P : α → Prop} {Q : γ → Prop}
    (first : Holds memory region m P)
    (second : ∀ value, P value → Holds memory region (next value) Q) :
    Holds memory region (m >>= next) Q := by
  obtain ⟨value, returned, middle⟩ := first.returns
  have then_ := second value middle
  constructor
  · rw [bind_of_ok returned]
    exact then_.returns
  · intro i member
    rw [bind_of_ok returned] at member
    rcases List.mem_append.mp member with early | late
    · exact first.inside i early
    · exact then_.inside i late

/-- Each round keeps the invariant and makes the measure smaller, so that fuel
above the measure is enough. -/
theorem holds_loop {body : σ → Access β (σ ⊕ α)} {Q : α → Prop} (I : σ → Prop) (measure : σ → Nat)
    (round : ∀ s, I s → Holds memory region (body s)
      (Sum.elim (fun next => I next ∧ measure next < measure s) Q)) :
    ∀ (fuel : Nat) (s : σ), I s → measure s < fuel → Holds memory region (loop body fuel s) Q := by
  intro fuel
  induction fuel with
  | zero =>
      intro s _ enough
      exact absurd enough (Nat.not_lt_zero _)
  | succ fuel ih =>
      intro s invariant enough
      refine (round s invariant).bind fun outcome post => ?_
      cases outcome with
      | inl next =>
          have smaller : measure next < measure s := post.2
          exact ih next post.1 (by omega)
      | inr value => exact holds_pure post

theorem loop_more_fuel {body : σ → Access β (σ ⊕ α)} {value : α} (more : Nat) :
    ∀ (fuel : Nat) (s : σ), (loop body fuel s memory).result = .ok value →
      loop body (fuel + more) s memory = loop body fuel s memory := by
  intro fuel
  induction fuel with
  | zero =>
      intro s ended
      cases ended
  | succ fuel ih =>
      intro s ended
      have fuelOfSum : fuel + 1 + more = fuel + more + 1 := by omega
      rw [fuelOfSum]
      rw [loop] at ended ⊢
      cases first : (body s memory).result with
      | error reason => rw [bind_of_error first, loop, bind_of_error first]
      | ok outcome =>
          rw [bind_of_ok first] at ended ⊢
          rw [loop, bind_of_ok first]
          cases outcome with
          | inl next =>
              have later := ih next ended
              simp only [later]
          | inr value => rfl

end Rules

end Access

end MineGPT.Lib
