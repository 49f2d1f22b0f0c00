import Mathlib.Data.List.Basic

/-!
# UTF-8 cut into pieces

The encoding of a text is the concatenation of the sequences of its characters.
A `Char` is a Unicode scalar value, so `Valid` is exactly the standard's notion:
no overlong form, no surrogate, nothing above U+10FFFF.

Cut anywhere, an encoding is the encoding of some whole characters followed by
a proper initial part of the next sequence: this is `exists_boundary`.
-/

set_option autoImplicit false

namespace MineGPT.Lib.Utf8

open String (utf8EncodeChar)

def encode (text : List Char) : List UInt8 := text.flatMap utf8EncodeChar

def Valid (bytes : List UInt8) : Prop := ∃ text, bytes = encode text

/-- A proper initial part, possibly empty, of the sequence of one character. -/
def PartialChar (bytes : List UInt8) : Prop :=
  ∃ c b more, utf8EncodeChar c = bytes ++ b :: more

@[simp] theorem encode_nil : encode [] = [] := rfl

@[simp] theorem encode_cons (c : Char) (text : List Char) :
    encode (c :: text) = utf8EncodeChar c ++ encode text := by
  simp [encode]

@[simp] theorem encode_append (first second : List Char) :
    encode (first ++ second) = encode first ++ encode second := by
  simp [encode]

theorem encode_flatten (groups : List (List Char)) :
    (groups.map encode).flatten = encode groups.flatten := by
  induction groups with
  | nil => rfl
  | cons group rest ih => simp [ih]

theorem valid_encode (text : List Char) : Valid (encode text) := ⟨text, rfl⟩

theorem encode_eq_nil {text : List Char} (empty : encode text = []) : text = [] := by
  cases text with
  | nil => rfl
  | cons c rest =>
      rw [encode_cons, List.append_eq_nil_iff] at empty
      exact absurd empty.1 String.utf8EncodeChar_ne_nil

theorem partialChar_nil : PartialChar [] := by
  obtain ⟨b, more, sequence⟩ :=
    List.exists_cons_of_ne_nil (String.utf8EncodeChar_ne_nil (c := 'a'))
  exact ⟨'a', b, more, sequence⟩

theorem PartialChar.length_le {bytes : List UInt8} (unfinished : PartialChar bytes) :
    bytes.length ≤ 3 := by
  obtain ⟨c, b, more, sequence⟩ := unfinished
  have whole := congrArg List.length sequence
  simp only [String.length_utf8EncodeChar, List.length_append, List.length_cons] at whole
  have := c.utf8Size_le_four
  omega

theorem exists_boundary : ∀ (text : List Char) (bytes rest : List UInt8),
    encode text = bytes ++ rest →
    ∃ done todo inside, text = done ++ todo ∧ bytes = encode done ++ inside ∧
      encode todo = inside ++ rest ∧
      (inside = [] ∨ ∃ c later b more, todo = c :: later ∧
        utf8EncodeChar c = inside ++ b :: more) := by
  intro text
  induction text with
  | nil =>
      intro bytes rest cut
      obtain ⟨rfl, rfl⟩ := List.append_eq_nil_iff.mp cut.symm
      exact ⟨[], [], [], rfl, rfl, rfl, Or.inl rfl⟩
  | cons c text ih =>
      intro bytes rest cut
      rw [encode_cons, List.append_eq_append_iff] at cut
      rcases cut with ⟨behind, first, later⟩ | ⟨left, first, later⟩
      · -- the first character is whole
        obtain ⟨done, todo, inside, split, front, back, ends⟩ := ih behind rest later
        refine ⟨c :: done, todo, inside, by rw [split, List.cons_append], ?_, back, ends⟩
        rw [first, front, encode_cons, List.append_assoc]
      · cases left with
        | nil =>
            rw [List.append_nil] at first
            rw [List.nil_append] at later
            exact ⟨[c], text, [], rfl, by simp [first], by simp [later], Or.inl rfl⟩
        | cons b more =>
            refine ⟨[], c :: text, bytes, rfl, rfl, ?_, Or.inr ⟨c, text, b, more, rfl, first⟩⟩
            rw [encode_cons, first, later, List.append_assoc]

/-! ## The bytes of one sequence -/

def Continuation (b : UInt8) : Prop := b &&& 0xC0 = 0x80

/-- The lead byte of a sequence of the given length. -/
def Lead (b : UInt8) : Nat → Prop
  | 1 => b &&& 0x80 = 0x00
  | 2 => b &&& 0xE0 = 0xC0
  | 3 => b &&& 0xF0 = 0xE0
  | 4 => b &&& 0xF8 = 0xF0
  | _ => False

instance (b : UInt8) : Decidable (Continuation b) :=
  inferInstanceAs (Decidable (b &&& 0xC0 = 0x80))

instance (b : UInt8) : (length : Nat) → Decidable (Lead b length)
  | 1 => inferInstanceAs (Decidable (b &&& 0x80 = 0x00))
  | 2 => inferInstanceAs (Decidable (b &&& 0xE0 = 0xC0))
  | 3 => inferInstanceAs (Decidable (b &&& 0xF0 = 0xE0))
  | 4 => inferInstanceAs (Decidable (b &&& 0xF8 = 0xF0))
  | 0 => isFalse id
  | _ + 5 => isFalse id

theorem forall_byte {P : UInt8 → Prop} (all : ∀ n < 256, P (UInt8.ofNat n)) (b : UInt8) : P b := by
  have here := all b.toNat b.toNat_lt
  rwa [UInt8.ofNat_toNat] at here

theorem continuation_low (b : UInt8) : Continuation (b &&& 0x3f ||| 0x80) := by
  revert b
  apply forall_byte
  decide +kernel

theorem lead_two (b : UInt8) : Lead (b &&& 0x1f ||| 0xc0) 2 := by
  revert b
  apply forall_byte
  decide +kernel

theorem lead_three (b : UInt8) : Lead (b &&& 0x0f ||| 0xe0) 3 := by
  revert b
  apply forall_byte
  decide +kernel

theorem lead_four (b : UInt8) : Lead (b &&& 0x07 ||| 0xf0) 4 := by
  revert b
  apply forall_byte
  decide +kernel

theorem lead_one {c : Char} (small : c.val ≤ 127) : Lead c.val.toUInt8 1 := by
  have ascii : ∀ n < 128, UInt8.ofNat n &&& 0x80 = 0x00 := by decide +kernel
  have bound := UInt32.le_iff_toNat_le.mp small
  have inside : c.val.toNat < 128 := Nat.lt_succ_of_le bound
  have here := ascii c.val.toNat inside
  rwa [UInt8.ofNat_uInt32ToNat] at here

theorem utf8EncodeChar_shape (c : Char) :
    ∃ lead tail, utf8EncodeChar c = lead :: tail ∧ Lead lead (tail.length + 1) ∧
      ∀ b ∈ tail, Continuation b := by
  rcases c.utf8Size_eq with one | two | three | four
  · exact ⟨_, _, String.utf8EncodeChar_eq_singleton one,
      lead_one (Char.utf8Size_eq_one_iff.mp one), by simp⟩
  · exact ⟨_, _, String.utf8EncodeChar_eq_cons_cons two, lead_two _, by simp [continuation_low]⟩
  · exact ⟨_, _, String.utf8EncodeChar_eq_cons_cons_cons three, lead_three _,
      by simp [continuation_low]⟩
  · exact ⟨_, _, String.utf8EncodeChar_eq_cons_cons_cons_cons four, lead_four _,
      by simp [continuation_low]⟩

theorem continuation_of_inside {c : Char} {inside more : List UInt8} {b : UInt8}
    (sequence : utf8EncodeChar c = inside ++ b :: more) (begun : inside ≠ []) :
    Continuation b := by
  obtain ⟨lead, tail, shape, _, each⟩ := utf8EncodeChar_shape c
  cases inside with
  | nil => exact absurd rfl begun
  | cons first inside =>
      rw [shape, List.cons_append, List.cons.injEq] at sequence
      exact each b (by simp [sequence.2])

theorem continuation_ne_zero {b : UInt8} (continuation : Continuation b) : b ≠ 0 := by
  rintro rfl
  exact absurd continuation (by decide)

theorem Lead.ne_zero {b : UInt8} {num : Nat} (lead : Lead b (num + 2)) : b ≠ 0 := by
  rintro rfl
  match num with
  | 0 => exact absurd lead (by decide)
  | 1 => exact absurd lead (by decide)
  | 2 => exact absurd lead (by decide)
  | _ + 3 => exact lead

theorem zero_notMem_encode {text : List Char} (nonzero : ∀ c ∈ text, c.toNat ≠ 0) :
    0 ∉ encode text := by
  intro member
  obtain ⟨c, inText, here⟩ := List.mem_flatMap.mp member
  obtain ⟨lead, tail, sequence, announces, each⟩ := utf8EncodeChar_shape c
  rw [sequence, List.mem_cons] at here
  rcases here with rfl | inTail
  · cases tail with
    | nil =>
        have one : c.utf8Size = 1 := by rw [← String.length_utf8EncodeChar, sequence]; rfl
        have small := UInt32.le_iff_toNat_le.mp (Char.utf8Size_eq_one_iff.mp one)
        rw [String.utf8EncodeChar_eq_singleton one, List.cons.injEq] at sequence
        have byte := congrArg UInt8.toNat sequence.1
        rw [UInt32.toNat_toUInt8] at byte
        have value : c.val.toNat = c.toNat := rfl
        have bound : (127 : UInt32).toNat = 127 := rfl
        have none : (0 : UInt8).toNat = 0 := rfl
        exact nonzero c inText (by omega)
    | cons b tail => exact Lead.ne_zero announces rfl
  · exact continuation_ne_zero (each 0 inTail) rfl

end MineGPT.Lib.Utf8
