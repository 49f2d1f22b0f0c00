import Mathlib.Algebra.GroupWithZero.Nat
import Mathlib.Algebra.Ring.Int.Defs
import MineGPT.Lib.Reader

/-!
# Writing what a reader takes back

A writer is the bytes it appends.  Each lemma here says which reader yields the value
that was written and leaves the bytes behind it.
-/

set_option autoImplicit false

namespace MineGPT.Lib.Reader

open ByteString

variable {ε α β : Type}

/-- The `n` low bytes of an unsigned integer, the lowest first. -/
def leBytes : Nat → Nat → Bytes
  | 0, _ => []
  | n + 1, value => UInt8.ofNat value :: leBytes n (value / 256)

def unsigned32 (value : Int) : Nat := (value % 2 ^ 32).toNat

def signed32 (bits : Nat) : Int := if bits < 2 ^ 31 then bits else (bits : Int) - 2 ^ 32

def int32 : Reader ε Int := do
  let bits ← uint 4
  pure (signed32 bits)

def writeInt32 (value : Int) : Bytes := leBytes 4 (unsigned32 value)

def Int32 (value : Int) : Prop := -2 ^ 31 ≤ value ∧ value < 2 ^ 31

/-- What a writer that may fail appends for each element. -/
def writeAll (write : α → Option Bytes) : List α → Option Bytes
  | [] => some []
  | a :: rest => do
    let here ← write a
    let later ← writeAll write rest
    pure (here ++ later)

theorem writeAll_eq {write : α → Option Bytes} {written : α → Bytes} : ∀ {list : List α},
    (∀ a ∈ list, write a = some (written a)) → writeAll write list = some (list.flatMap written) := by
  intro list
  induction list with
  | nil => exact fun _ => rfl
  | cons a rest ih =>
      intro each
      rw [writeAll, each a (by simp), Option.bind_eq_bind, Option.bind_some,
        ih fun b member => each b (by simp [member])]
      rfl

theorem Yields.bind {r : Reader ε α} {next : α → Reader ε β} {bytes middle rest : Bytes}
    {value : α} {result : β} (first : Yields r bytes value middle)
    (second : Yields (next value) middle result rest) :
    Yields (r >>= next) bytes result rest :=
  yields_bind.mpr ⟨value, middle, first, second⟩

@[simp] theorem length_leBytes : ∀ (n value : Nat), (leBytes n value).length = n
  | 0, _ => rfl
  | n + 1, value => by rw [leBytes, List.length_cons, length_leBytes n]

theorem littleEndian_leBytes : ∀ {n value : Nat}, value < 256 ^ n →
    littleEndian (leBytes n value) = value := by
  intro n
  induction n with
  | zero =>
      intro value small
      rw [leBytes, littleEndian]
      omega
  | succ n ih =>
      intro value small
      have less : value / 256 < 256 ^ n :=
        Nat.div_lt_of_lt_mul (by rwa [Nat.mul_comm, ← Nat.pow_succ])
      rw [leBytes, littleEndian, ih less, UInt8.toNat_ofNat']
      omega

theorem yields_take {n : Nat} {bytes : Bytes} (length : bytes.length = n) (rest : Bytes) :
    Yields (take n : Reader ε _) (bytes ++ rest) ⟨bytes, length⟩ rest := by
  subst length
  have enough : bytes.length ≤ (bytes ++ rest).length := by simp
  unfold Yields take
  rw [dif_pos enough]
  simp

theorem yields_uint {n value : Nat} (small : value < 256 ^ n) (rest : Bytes) :
    Yields (uint n : Reader ε Nat) (leBytes n value ++ rest) value rest := by
  refine (yields_take (length_leBytes n value) rest).bind ?_
  rw [yields_pure]
  exact ⟨(littleEndian_leBytes small).symm, rfl⟩

theorem unsigned32_lt (value : Int) : unsigned32 value < 256 ^ 4 := by
  unfold unsigned32
  omega

theorem signed32_unsigned32 {value : Int} (fits : Int32 value) :
    signed32 (unsigned32 value) = value := by
  unfold signed32 unsigned32 Int32 at *
  split_ifs <;> omega

theorem yields_int32 {value : Int} (fits : Int32 value) (rest : Bytes) :
    Yields (int32 : Reader ε Int) (writeInt32 value ++ rest) value rest := by
  refine (yields_uint (unsigned32_lt value) rest).bind ?_
  rw [yields_pure]
  exact ⟨(signed32_unsigned32 fits).symm, rfl⟩

theorem safe_int32 {E : ε → Prop} : Safe E (fun _ => True) (int32 : Reader ε Int) :=
  (safe_uint 4).bind fun _ _ => safe_pure trivial

end MineGPT.Lib.Reader
