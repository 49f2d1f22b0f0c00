import MineGPT.Lib.ByteString

/-!
# Readers

A reader takes a value from the front of a byte sequence.  It can also give up,
as a function does that returns `false`, or abort with an error, as an assertion
or an exception does.  Readers are a monad; a sequence of readers yields a value
exactly when each of them does.
-/

set_option autoImplicit false

namespace MineGPT.Lib

open ByteString

def Reader (ε α : Type) : Type := Bytes → Except ε (Option (α × Bytes))

namespace Reader

variable {ε α β : Type}

def Yields (r : Reader ε α) (bytes : Bytes) (value : α) (rest : Bytes) : Prop :=
  r bytes = .ok (some (value, rest))

def succeed (value : α) : Reader ε α := fun bytes => .ok (some (value, bytes))

def fail : Reader ε α := fun _ => .ok none

def abort (error : ε) : Reader ε α := fun _ => .error error

def andThen (r : Reader ε α) (next : α → Reader ε β) : Reader ε β := fun bytes =>
  match r bytes with
  | .error error => .error error
  | .ok none => .ok none
  | .ok (some (value, rest)) => next value rest

instance : Monad (Reader ε) where
  pure := succeed
  bind := andThen

def ofExcept (result : Except ε α) : Reader ε α := fun bytes =>
  result.map fun value => some (value, bytes)

def take (n : Nat) : Reader ε {bytes : Bytes // bytes.length = n} := fun bytes =>
  if enough : n ≤ bytes.length then
    .ok (some (⟨bytes.take n, List.length_take_of_le enough⟩, bytes.drop n))
  else .ok none

def littleEndian : Bytes → Nat
  | [] => 0
  | byte :: rest => byte.toNat + 256 * littleEndian rest

def uint (n : Nat) : Reader ε Nat := do
  let bytes ← take n
  pure (littleEndian bytes)

def times : Nat → Reader ε α → Reader ε (List α)
  | 0, _ => pure []
  | n + 1, r => do
    let value ← r
    let later ← times n r
    pure (value :: later)

/-! ## What is yielded -/

@[simp] theorem yields_pure {bytes rest : Bytes} {value result : α} :
    Yields (pure value : Reader ε α) bytes result rest ↔ result = value ∧ rest = bytes := by
  simp only [Yields, pure, succeed, Except.ok.injEq, Option.some.injEq, Prod.mk.injEq]
  exact ⟨fun ⟨value, rest⟩ => ⟨value.symm, rest.symm⟩, fun ⟨value, rest⟩ => ⟨value.symm, rest.symm⟩⟩

@[simp] theorem not_yields_fail {bytes rest : Bytes} {result : α} :
    ¬ Yields (fail : Reader ε α) bytes result rest := by
  simp [Yields, fail]

@[simp] theorem not_yields_abort {bytes rest : Bytes} {result : α} {error : ε} :
    ¬ Yields (abort error : Reader ε α) bytes result rest := by
  simp [Yields, abort]

theorem yields_bind {r : Reader ε α} {next : α → Reader ε β} {bytes rest : Bytes} {result : β} :
    Yields (r >>= next) bytes result rest ↔
      ∃ value middle, Yields r bytes value middle ∧ Yields (next value) middle result rest := by
  show andThen r next bytes = _ ↔ _
  simp only [andThen, Yields]
  cases first : r bytes with
  | error error => simp
  | ok read =>
      cases read with
      | none => simp
      | some pair => simp [Prod.ext_iff]

theorem yields_ofExcept {outcome : Except ε α} {bytes rest : Bytes} {result : α} :
    Yields (ofExcept outcome) bytes result rest ↔ outcome = .ok result ∧ rest = bytes := by
  cases outcome with
  | error error => simp [Yields, ofExcept, Except.map]
  | ok value =>
      simp only [Yields, ofExcept, Except.map, Except.ok.injEq, Option.some.injEq, Prod.mk.injEq]
      exact and_congr_right' eq_comm

/-! ## On any bytes -/

/-- Whatever the bytes are, an abort is one of `E` and a value that is yielded is one of
`P`. -/
def Safe (E : ε → Prop) (P : α → Prop) (r : Reader ε α) : Prop :=
  ∀ bytes, (∀ error, r bytes = .error error → E error) ∧
    ∀ value rest, Yields r bytes value rest → P value

section Safe

variable {E : ε → Prop} {P Q : α → Prop} {R : β → Prop}

theorem Safe.mono {r : Reader ε α} (safe : Safe E P r) (implies : ∀ value, P value → Q value) :
    Safe E Q r :=
  fun bytes => ⟨(safe bytes).1, fun value rest read =>
    implies value ((safe bytes).2 value rest read)⟩

theorem safe_pure {value : α} (holds : P value) : Safe E P (pure value : Reader ε α) := by
  intro bytes
  refine ⟨fun error failed => ?_, fun result rest read => ?_⟩
  · simp [pure, succeed] at failed
  · rw [(yields_pure.mp read).1]
    exact holds

theorem safe_abort {error : ε} (known : E error) : Safe E P (abort error : Reader ε α) := by
  intro bytes
  refine ⟨fun other failed => ?_, fun value rest read => absurd read not_yields_abort⟩
  obtain rfl := Except.error.inj failed
  exact known

theorem Safe.bind {r : Reader ε α} {next : α → Reader ε β} (first : Safe E P r)
    (second : ∀ value, P value → Safe E R (next value)) : Safe E R (r >>= next) := by
  intro bytes
  refine ⟨fun error failed => ?_, fun result rest read => ?_⟩
  · change andThen r next bytes = _ at failed
    unfold andThen at failed
    cases run : r bytes with
    | error other =>
        rw [run] at failed
        obtain rfl := Except.error.inj failed
        exact (first bytes).1 other run
    | ok read =>
        rw [run] at failed
        cases read with
        | none => simp at failed
        | some pair =>
            exact (second pair.1 ((first bytes).2 pair.1 pair.2 run) pair.2).1 error failed
  · obtain ⟨value, middle, read, later⟩ := yields_bind.mp read
    exact (second value ((first bytes).2 value middle read) middle).2 result rest later

theorem safe_ite {c : Prop} [Decidable c] {yes no : Reader ε α} (first : c → Safe E P yes)
    (second : ¬ c → Safe E P no) : Safe E P (if c then yes else no) := by
  split_ifs with here
  · exact first here
  · exact second here

theorem safe_take (n : Nat) : Safe E (fun _ => True) (take n : Reader ε _) := by
  intro bytes
  refine ⟨fun error failed => ?_, fun _ _ _ => trivial⟩
  unfold take at failed
  split_ifs at failed

theorem safe_uint (n : Nat) : Safe E (fun _ => True) (uint n : Reader ε Nat) :=
  (safe_take n).bind fun _ _ => safe_pure trivial

end Safe

end Reader

end MineGPT.Lib
