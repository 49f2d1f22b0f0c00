import MineGPT.Lib.ByteString
import MineGPT.Lib.Utf8Search

/-!
# Codepoints and the byte alphabet

The part of `unicode.cpp` that turns text into codepoints and back, and the
alphabet in which a BPE vocabulary writes bytes: every byte is a printable
character, the ones that are not printable are shifted to U+0100 and up.
-/

set_option autoImplicit false

namespace MineGPT.Vocab

open String (utf8EncodeChar)
open MineGPT.Lib.ByteString MineGPT.Lib.Utf8

/-! ## Codepoints -/

def isTail (b : UInt8) : Bool := b &&& 0xc0 == 0x80

/-- The codepoint a text starts with, and what is behind it; `none` if it throws. -/
def unicodeCptFromUtf8 : Bytes → Option (Nat × Bytes)
  | [] => none
  | a :: rest =>
    if a &&& 0x80 = 0 then some (a.toNat, rest)
    else if a &&& 0x40 = 0 then none
    else if a &&& 0x20 = 0 then
      match rest with
      | b :: rest =>
        if isTail b then some (a.toNat % 0x20 * 0x40 + b.toNat % 0x40, rest) else none
      | _ => none
    else if a &&& 0x10 = 0 then
      match rest with
      | b :: c :: rest =>
        if isTail b && isTail c then
          some (a.toNat % 0x10 * 0x1000 + b.toNat % 0x40 * 0x40 + c.toNat % 0x40, rest)
        else none
      | _ => none
    else if a &&& 0x08 = 0 then
      match rest with
      | b :: c :: d :: rest =>
        if isTail b && isTail c && isTail d then
          some (a.toNat % 0x08 * 0x40000 + b.toNat % 0x40 * 0x1000 + c.toNat % 0x40 * 0x40 +
            d.toNat % 0x40, rest)
        else none
      | _ => none
    else none

/-- A byte that starts no codepoint becomes a replacement character. -/
def cptsLoop : Nat → Bytes → List Nat
  | 0, _ => []
  | _, [] => []
  | fuel + 1, b :: rest =>
    match unicodeCptFromUtf8 (b :: rest) with
    | some (cpt, rest) => cpt :: cptsLoop fuel rest
    | none => 0xfffd :: cptsLoop fuel rest

def unicodeCptsFromUtf8 (utf8 : Bytes) : List Nat := cptsLoop utf8.length utf8

/-- `none` is the exception for an invalid codepoint. -/
def unicodeCptToUtf8 (cpt : Nat) : Option Bytes :=
  if cpt ≤ 0x7f then some [UInt8.ofNat cpt]
  else if cpt ≤ 0x7ff then
    some [UInt8.ofNat (0xc0 + cpt / 0x40 % 0x20), UInt8.ofNat (0x80 + cpt % 0x40)]
  else if cpt ≤ 0xffff then
    some [UInt8.ofNat (0xe0 + cpt / 0x1000 % 0x10), UInt8.ofNat (0x80 + cpt / 0x40 % 0x40),
      UInt8.ofNat (0x80 + cpt % 0x40)]
  else if cpt ≤ 0x10ffff then
    some [UInt8.ofNat (0xf0 + cpt / 0x40000 % 0x08), UInt8.ofNat (0x80 + cpt / 0x1000 % 0x40),
      UInt8.ofNat (0x80 + cpt / 0x40 % 0x40), UInt8.ofNat (0x80 + cpt % 0x40)]
  else none

def unicodeCptsToUtf8 (cpts : List Nat) : Option Bytes :=
  (cpts.mapM unicodeCptToUtf8).map List.flatten

section Bits

theorem and_0x80 (b : UInt8) : b &&& 0x80 = 0 ↔ b.toNat < 0x80 := by
  revert b
  apply forall_byte
  decide +kernel

theorem and_0x40 (b : UInt8) : b &&& 0x40 = 0 ↔ b.toNat / 0x40 % 2 = 0 := by
  revert b
  apply forall_byte
  decide +kernel

theorem and_0x20 (b : UInt8) : b &&& 0x20 = 0 ↔ b.toNat / 0x20 % 2 = 0 := by
  revert b
  apply forall_byte
  decide +kernel

theorem and_0x10 (b : UInt8) : b &&& 0x10 = 0 ↔ b.toNat / 0x10 % 2 = 0 := by
  revert b
  apply forall_byte
  decide +kernel

theorem and_0x08 (b : UInt8) : b &&& 0x08 = 0 ↔ b.toNat / 0x08 % 2 = 0 := by
  revert b
  apply forall_byte
  decide +kernel

theorem isTail_iff (b : UInt8) : isTail b = true ↔ 0x80 ≤ b.toNat ∧ b.toNat < 0xc0 := by
  rw [isTail, beq_iff_eq]
  exact continuation_iff b

theorem isTail_ofNat {n : Nat} (low : 0x80 ≤ n) (high : n < 0xc0) :
    isTail (UInt8.ofNat n) = true := by
  rw [isTail_iff, UInt8.toNat_ofNat']
  omega

end Bits

section Char

theorem unicodeCptToUtf8_char (c : Char) : unicodeCptToUtf8 c.toNat = some (utf8EncodeChar c) := by
  have valid : c.toNat.isValidChar := c.valid
  have value : c.val.toNat = c.toNat := rfl
  unfold Nat.isValidChar at valid
  unfold unicodeCptToUtf8 utf8EncodeChar
  simp only [value, Nat.add_comm]
  split_ifs
  · rfl
  · rfl
  · rfl
  · rfl
  · omega

theorem unicodeCptFromUtf8_char (c : Char) (rest : Bytes) :
    unicodeCptFromUtf8 (utf8EncodeChar c ++ rest) = some (c.toNat, rest) := by
  have valid : c.toNat.isValidChar := c.valid
  have value : c.val.toNat = c.toNat := rfl
  unfold Nat.isValidChar at valid
  unfold utf8EncodeChar
  simp only [value]
  generalize c.toNat = v at *
  split_ifs with one two three
  · simp only [List.cons_append, List.nil_append, unicodeCptFromUtf8, and_0x80,
      UInt8.toNat_ofNat']
    rw [if_pos (by omega), Nat.mod_eq_of_lt (by omega)]
  · simp only [List.cons_append, List.nil_append, unicodeCptFromUtf8, and_0x80, and_0x40, and_0x20,
      UInt8.toNat_ofNat']
    rw [if_neg (by omega), if_neg (by omega), if_pos (by omega),
      if_pos (isTail_ofNat (by omega) (by omega))]
    congr 2
    omega
  · simp only [List.cons_append, List.nil_append, unicodeCptFromUtf8, and_0x80, and_0x40, and_0x20,
      and_0x10, UInt8.toNat_ofNat', Bool.and_eq_true]
    rw [if_neg (by omega), if_neg (by omega), if_neg (by omega), if_pos (by omega),
      if_pos ⟨isTail_ofNat (by omega) (by omega), isTail_ofNat (by omega) (by omega)⟩]
    congr 2
    omega
  · simp only [List.cons_append, List.nil_append, unicodeCptFromUtf8, and_0x80, and_0x40, and_0x20,
      and_0x10, and_0x08, UInt8.toNat_ofNat', Bool.and_eq_true]
    rw [if_neg (by omega), if_neg (by omega), if_neg (by omega), if_neg (by omega),
      if_pos (by omega), if_pos ⟨⟨isTail_ofNat (by omega) (by omega),
        isTail_ofNat (by omega) (by omega)⟩, isTail_ofNat (by omega) (by omega)⟩]
    congr 2
    omega

theorem cptsLoop_encode : ∀ (text : List Char) (fuel : Nat), (encode text).length ≤ fuel →
    cptsLoop fuel (encode text) = text.map Char.toNat := by
  intro text
  induction text with
  | nil => intro fuel _; cases fuel <;> rfl
  | cons c text ih =>
      intro fuel enough
      obtain ⟨b, tail, sequence⟩ :=
        List.exists_cons_of_ne_nil (String.utf8EncodeChar_ne_nil (c := c))
      have decoded := unicodeCptFromUtf8_char c (encode text)
      rw [encode_cons] at enough ⊢
      rw [sequence] at enough decoded ⊢
      rw [List.cons_append] at enough decoded ⊢
      cases fuel with
      | zero => simp at enough
      | succ fuel =>
          simp only [List.length_cons, List.length_append] at enough
          have later := ih fuel (by omega)
          rw [cptsLoop, decoded, List.map_cons]
          simp only [later]

theorem unicodeCptsFromUtf8_encode (text : List Char) :
    unicodeCptsFromUtf8 (encode text) = text.map Char.toNat :=
  cptsLoop_encode text _ (Nat.le_refl _)

theorem unicodeCptsToUtf8_chars (text : List Char) :
    unicodeCptsToUtf8 (text.map Char.toNat) = some (encode text) := by
  have each : (text.map Char.toNat).mapM unicodeCptToUtf8 = some (text.map utf8EncodeChar) := by
    induction text with
    | nil => rfl
    | cons c text ih =>
        rw [List.map_cons, List.mapM_cons, unicodeCptToUtf8_char, ih]
        rfl
  rw [unicodeCptsToUtf8, each, Option.map_some, encode, List.flatMap_def]

end Char

/-! ## The byte alphabet -/

/-- The three loops over printable characters in `unicode_byte_to_utf8_map`. -/
def printable (ch : Nat) : Bool :=
  (0x21 ≤ ch && ch ≤ 0x7e) || (0xa1 ≤ ch && ch ≤ 0xac) || (0xae ≤ ch && ch ≤ 0xff)

/-- The last loop counts the bytes that are not in the map yet. -/
def byteToCpt (ch : Nat) : Nat :=
  if printable ch then ch else 256 + ((List.range ch).filter fun n => !printable n).length

def unicodeByteToUtf8 (byte : UInt8) : Option Bytes := unicodeCptToUtf8 (byteToCpt byte.toNat)

/-- `none` is `std::out_of_range`. -/
def unicodeUtf8ToByte (utf8 : Bytes) : Option UInt8 :=
  ((List.range 256).find? fun ch => unicodeCptToUtf8 (byteToCpt ch) = some utf8).map UInt8.ofNat

section Alphabet

theorem byteToCpt_lt (ch : Nat) (byte : ch < 256) : byteToCpt ch < 512 := by
  have fewer := List.length_filter_le (fun n => !printable n) (List.range ch)
  rw [List.length_range] at fewer
  unfold byteToCpt
  split_ifs
  · omega
  · omega

theorem byteToCpt_injective {first second : Nat} (one : first < 256) (other : second < 256)
    (same : byteToCpt first = byteToCpt second) : first = second := by
  have counted : ∀ {a b : Nat}, a < b → printable a = false →
      ((List.range a).filter fun n => !printable n).length <
        ((List.range b).filter fun n => !printable n).length := by
    intro a b less shifted
    have step : (List.range (a + 1)).filter (fun n => !printable n) =
        (List.range a).filter (fun n => !printable n) ++ [a] := by
      rw [List.range_succ, List.filter_append]
      simp [shifted]
    have more : (List.range (a + 1)).Sublist (List.range b) := List.range_sublist.mpr less
    have grows := (more.filter fun n => !printable n).length_le
    rw [step, List.length_append] at grows
    exact grows
  unfold byteToCpt at same
  split_ifs at same with printed printed' printed'
  · exact same
  · omega
  · omega
  · simp only [Bool.not_eq_true] at printed printed'
    rcases Nat.lt_trichotomy first second with less | equal | more
    · have := counted less printed
      omega
    · exact equal
    · have := counted more printed'
      omega

def byteChar (byte : UInt8) : Char := Char.ofNat (byteToCpt byte.toNat)

theorem byteChar_toNat (byte : UInt8) : (byteChar byte).toNat = byteToCpt byte.toNat := by
  have small := byteToCpt_lt byte.toNat byte.toNat_lt
  have valid : (byteToCpt byte.toNat).isValidChar := Or.inl (by omega)
  rw [byteChar, Char.ofNat, dif_pos valid]
  rfl

theorem unicodeByteToUtf8_eq (byte : UInt8) :
    unicodeByteToUtf8 byte = some (utf8EncodeChar (byteChar byte)) := by
  rw [unicodeByteToUtf8, ← byteChar_toNat, unicodeCptToUtf8_char]

theorem byteChar_injective : Function.Injective byteChar := by
  intro first second same
  have cpts : byteToCpt first.toNat = byteToCpt second.toNat := by
    rw [← byteChar_toNat, ← byteChar_toNat, same]
  exact UInt8.toNat_inj.mp (byteToCpt_injective first.toNat_lt second.toNat_lt cpts)

theorem unicodeUtf8ToByte_byteChar (byte : UInt8) :
    unicodeUtf8ToByte (utf8EncodeChar (byteChar byte)) = some byte := by
  have written := unicodeByteToUtf8_eq byte
  rw [unicodeByteToUtf8] at written
  rw [unicodeUtf8ToByte, ← written]
  cases found : (List.range 256).find? fun ch =>
      unicodeCptToUtf8 (byteToCpt ch) = unicodeCptToUtf8 (byteToCpt byte.toNat) with
  | none =>
      have missed := List.find?_eq_none.mp found byte.toNat (List.mem_range.mpr byte.toNat_lt)
      simp at missed
  | some ch =>
      have small := List.mem_range.mp (List.mem_of_find?_eq_some found)
      have same : unicodeCptToUtf8 (byteToCpt ch) = unicodeCptToUtf8 (byteToCpt byte.toNat) := by
        simpa using List.find?_some found
      have back : (UInt8.ofNat ch).toNat = ch := by
        rw [UInt8.toNat_ofNat']
        omega
      have chars := unicodeByteToUtf8_eq (UInt8.ofNat ch)
      rw [unicodeByteToUtf8, back, same, written, Option.some.injEq] at chars
      rw [Option.map_some, byteChar_injective (utf8EncodeChar_inj chars)]

end Alphabet

end MineGPT.Vocab
