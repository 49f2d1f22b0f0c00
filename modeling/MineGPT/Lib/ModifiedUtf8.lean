import MineGPT.Lib.Utf8

/-!
# UTF-16 and Modified UTF-8

Modified UTF-8 encodes UTF-16 code units, each on its own: U+0000 takes two
bytes, and a character above U+FFFF takes two sequences of three bytes, one for
each surrogate.  On the characters from U+0001 to U+FFFF it is UTF-8, and it
has no use for the bytes from 0xF0 on, with which UTF-8 starts all others.
-/

set_option autoImplicit false

namespace MineGPT.Lib.ModifiedUtf8

open MineGPT.Lib.Utf8
open String (utf8EncodeChar)

def utf16EncodeChar (c : Char) : List UInt16 :=
  if c.toNat < 0x10000 then [UInt16.ofNat c.toNat]
  else
    [UInt16.ofNat (0xD800 + (c.toNat - 0x10000) / 0x400),
      UInt16.ofNat (0xDC00 + (c.toNat - 0x10000) % 0x400)]

def utf16 (text : List Char) : List UInt16 := text.flatMap utf16EncodeChar

def encodeUnit (unit : UInt16) : List UInt8 :=
  let v := unit.toNat
  if v = 0 then [0xC0, 0x80]
  else if v ≤ 0x7F then [UInt8.ofNat v]
  else if v ≤ 0x7FF then [UInt8.ofNat (v / 64 % 0x20 + 0xC0), UInt8.ofNat (v % 0x40 + 0x80)]
  else
    [UInt8.ofNat (v / 4096 % 0x10 + 0xE0), UInt8.ofNat (v / 64 % 0x40 + 0x80),
      UInt8.ofNat (v % 0x40 + 0x80)]

def modifiedUtf8 (units : List UInt16) : List UInt8 := units.flatMap encodeUnit

def WellFormed (bytes : List UInt8) : Prop := ∃ units, bytes = modifiedUtf8 units

@[simp] theorem modifiedUtf8_append (first second : List UInt16) :
    modifiedUtf8 (first ++ second) = modifiedUtf8 first ++ modifiedUtf8 second := by
  simp [modifiedUtf8]

@[simp] theorem utf16_append (first second : List Char) :
    utf16 (first ++ second) = utf16 first ++ utf16 second := by
  simp [utf16]

theorem utf16EncodeChar_ne_nil (c : Char) : utf16EncodeChar c ≠ [] := by
  rw [utf16EncodeChar]
  split <;> simp

theorem utf16_eq_nil {text : List Char} (empty : utf16 text = []) : text = [] := by
  cases text with
  | nil => rfl
  | cons c rest =>
      rw [utf16, List.flatMap_cons, List.append_eq_nil_iff] at empty
      exact absurd empty.1 (utf16EncodeChar_ne_nil c)

/-! ## Where the encodings agree -/

theorem encodeUnit_utf16 {c : Char} (nonzero : c.toNat ≠ 0) (bmp : c.toNat < 0x10000) :
    modifiedUtf8 (utf16EncodeChar c) = utf8EncodeChar c := by
  have unit : (UInt16.ofNat c.toNat).toNat = c.toNat := by
    rw [UInt16.toNat_ofNat']
    exact Nat.mod_eq_of_lt bmp
  have value : c.val.toNat = c.toNat := rfl
  have three : c.toNat ≤ 0xFFFF := Nat.le_of_lt_succ bmp
  simp only [utf16EncodeChar, bmp, if_true, modifiedUtf8, List.flatMap_cons, List.flatMap_nil,
    List.append_nil, encodeUnit, unit, nonzero, if_false, utf8EncodeChar, value, three]

theorem modifiedUtf8_utf16 {text : List Char} (nonzero : ∀ c ∈ text, c.toNat ≠ 0)
    (bmp : ∀ c ∈ text, c.toNat < 0x10000) : modifiedUtf8 (utf16 text) = encode text := by
  induction text with
  | nil => rfl
  | cons c rest ih =>
      have split : utf16 (c :: rest) = utf16EncodeChar c ++ utf16 rest := rfl
      rw [split, modifiedUtf8_append, encodeUnit_utf16 (nonzero c (by simp)) (bmp c (by simp)),
        encode_cons, ih (fun d member => nonzero d (by simp [member]))
          (fun d member => bmp d (by simp [member]))]

/-! ## Where they do not -/

theorem encodeUnit_lt (unit : UInt16) : ∀ b ∈ encodeUnit unit, b < 0xF0 := by
  have small : ∀ n < 0xF0, UInt8.ofNat n < 0xF0 := by decide +kernel
  intro b member
  simp only [encodeUnit] at member
  split at member
  · simp only [List.mem_cons, List.not_mem_nil, or_false] at member
    rcases member with rfl | rfl <;> decide
  · split at member
    · simp only [List.mem_cons, List.not_mem_nil, or_false] at member
      subst member
      exact small _ (by omega)
    · split at member
      · simp only [List.mem_cons, List.not_mem_nil, or_false] at member
        rcases member with rfl | rfl <;> exact small _ (by omega)
      · simp only [List.mem_cons, List.not_mem_nil, or_false] at member
        rcases member with rfl | rfl | rfl <;> exact small _ (by omega)

theorem WellFormed.lt {bytes : List UInt8} (wellFormed : WellFormed bytes) :
    ∀ b ∈ bytes, b < 0xF0 := by
  obtain ⟨units, rfl⟩ := wellFormed
  intro b member
  obtain ⟨unit, _, here⟩ := List.mem_flatMap.mp member
  exact encodeUnit_lt unit b here

theorem not_lt_of_supplementary {c : Char} (above : ¬ c.toNat < 0x10000) :
    ∃ b ∈ utf8EncodeChar c, ¬ b < 0xF0 := by
  have four : c.utf8Size = 4 := by
    rw [Char.utf8Size_eq_four_iff, UInt32.lt_iff_toNat_lt]
    have value : c.val.toNat = c.toNat := rfl
    have bound : (0xFFFF : UInt32).toNat = 0xFFFF := rfl
    omega
  rw [String.utf8EncodeChar_eq_cons_cons_cons_cons four]
  refine ⟨_, List.mem_cons_self, ?_⟩
  have high : ∀ b : UInt8, ¬ (b &&& 0x07 ||| 0xf0) < 0xF0 := forall_byte (by decide +kernel)
  exact high _

theorem wellFormed_encode_iff {text : List Char} (nonzero : ∀ c ∈ text, c.toNat ≠ 0) :
    WellFormed (encode text) ↔ ∀ c ∈ text, c.toNat < 0x10000 := by
  constructor
  · intro wellFormed c member
    by_contra above
    obtain ⟨b, here, large⟩ := not_lt_of_supplementary above
    exact large (wellFormed.lt b (List.mem_flatMap.mpr ⟨c, member, here⟩))
  · intro bmp
    exact ⟨utf16 text, (modifiedUtf8_utf16 nonzero bmp).symm⟩

theorem zero_notMem_modifiedUtf8 (units : List UInt16) : 0 ∉ modifiedUtf8 units := by
  have nonzero : ∀ n, 0 < n → n < 256 → UInt8.ofNat n ≠ 0 := by
    intro n positive small zero
    have value := congrArg UInt8.toNat zero
    rw [UInt8.toNat_ofNat', Nat.mod_eq_of_lt small] at value
    exact absurd value (Nat.ne_of_gt positive)
  intro member
  obtain ⟨unit, _, here⟩ := List.mem_flatMap.mp member
  simp only [encodeUnit] at here
  split at here
  · simp at here
  · split at here
    · simp only [List.mem_cons, List.not_mem_nil, or_false] at here
      exact nonzero _ (by omega) (by omega) here.symm
    · split at here
      · simp only [List.mem_cons, List.not_mem_nil, or_false] at here
        rcases here with here | here <;> exact nonzero _ (by omega) (by omega) here.symm
      · simp only [List.mem_cons, List.not_mem_nil, or_false] at here
        rcases here with here | here | here <;> exact nonzero _ (by omega) (by omega) here.symm

/-- The two encodings of a text are the same exactly when it has no U+0000 and no
character above U+FFFF. -/
theorem modifiedUtf8_eq_encode_iff (text : List Char) :
    modifiedUtf8 (utf16 text) = encode text ↔ ∀ c ∈ text, c.toNat ≠ 0 ∧ c.toNat < 0x10000 := by
  constructor
  · intro same
    have nonzero : ∀ c ∈ text, c.toNat ≠ 0 := by
      intro c member zero
      have nul : (0 : UInt8) ∈ encode text := by
        refine List.mem_flatMap.mpr ⟨c, member, ?_⟩
        rw [← Char.ofNat_toNat c, zero]
        decide
      rw [← same] at nul
      exact zero_notMem_modifiedUtf8 _ nul
    have bmp := (wellFormed_encode_iff nonzero).mp ⟨utf16 text, same.symm⟩
    exact fun c member => ⟨nonzero c member, bmp c member⟩
  · intro low
    exact modifiedUtf8_utf16 (fun c member => (low c member).1) fun c member => (low c member).2

/-! ## Decoding -/

/-- Reads one code unit after the other; the lead byte says how many bytes it
takes. -/
def decodeModified : List UInt8 → List UInt16
  | [] => []
  | [a] => [UInt16.ofNat a.toNat]
  | a :: b :: rest =>
    if a.toNat < 0x80 then UInt16.ofNat a.toNat :: decodeModified (b :: rest)
    else if a.toNat < 0xE0 then
      UInt16.ofNat (a.toNat % 0x20 * 64 + b.toNat % 0x40) :: decodeModified rest
    else
      match rest with
      | [] => []
      | c :: rest =>
        UInt16.ofNat (a.toNat % 0x10 * 4096 + b.toNat % 0x40 * 64 + c.toNat % 0x40) ::
          decodeModified rest

theorem decodeModified_one {a : UInt8} (one : a.toNat < 0x80) (rest : List UInt8) :
    decodeModified (a :: rest) = UInt16.ofNat a.toNat :: decodeModified rest := by
  cases rest with
  | nil => rfl
  | cons b rest => rw [decodeModified.eq_def]; simp only [one, if_true]

theorem decodeModified_two {a : UInt8} (notOne : ¬ a.toNat < 0x80) (two : a.toNat < 0xE0)
    (b : UInt8) (rest : List UInt8) :
    decodeModified (a :: b :: rest) =
      UInt16.ofNat (a.toNat % 0x20 * 64 + b.toNat % 0x40) :: decodeModified rest := by
  rw [decodeModified.eq_def]
  simp only [notOne, two, if_true, if_false]

theorem decodeModified_three {a : UInt8} (notTwo : ¬ a.toNat < 0xE0) (b c : UInt8)
    (rest : List UInt8) :
    decodeModified (a :: b :: c :: rest) =
      UInt16.ofNat (a.toNat % 0x10 * 4096 + b.toNat % 0x40 * 64 + c.toNat % 0x40) ::
        decodeModified rest := by
  have notOne : ¬ a.toNat < 0x80 := by omega
  rw [decodeModified.eq_def]
  simp only [notOne, notTwo, if_false]

theorem decodeModified_encodeUnit (unit : UInt16) (rest : List UInt8) :
    decodeModified (encodeUnit unit ++ rest) = unit :: decodeModified rest := by
  have value : UInt16.ofNat unit.toNat = unit := UInt16.ofNat_toNat
  have bound := unit.toNat_lt
  have byte : ∀ n < 256, (UInt8.ofNat n).toNat = n := fun n small => by
    rw [UInt8.toNat_ofNat']
    exact Nat.mod_eq_of_lt small
  have low : unit.toNat % 0x40 + 0x80 < 256 := by omega
  have middle : unit.toNat / 64 % 0x40 + 0x80 < 256 := by omega
  simp only [encodeUnit]
  split
  · rename_i zero
    rw [zero] at value
    rw [← value]
    exact decodeModified_two (by decide) (by decide) _ _
  · split
    · rename_i one
      rw [List.cons_append, List.nil_append, decodeModified_one (by rw [byte _ (by omega)]; omega),
        byte _ (by omega), value]
    · split
      · have lead : unit.toNat / 64 % 0x20 + 0xC0 < 256 := by omega
        rw [List.cons_append, List.cons_append, List.nil_append,
          decodeModified_two (by rw [byte _ lead]; omega) (by rw [byte _ lead]; omega),
          byte _ lead, byte _ low]
        congr 1
        conv => rhs; rw [← value]
        congr 1
        omega
      · have lead : unit.toNat / 4096 % 0x10 + 0xE0 < 256 := by omega
        rw [List.cons_append, List.cons_append, List.cons_append, List.nil_append,
          decodeModified_three (by rw [byte _ lead]; omega), byte _ lead, byte _ middle,
          byte _ low]
        congr 1
        conv => rhs; rw [← value]
        congr 1
        omega

theorem decodeModified_modifiedUtf8 (units : List UInt16) :
    decodeModified (modifiedUtf8 units) = units := by
  induction units with
  | nil => rfl
  | cons unit rest ih =>
      have split : modifiedUtf8 (unit :: rest) = encodeUnit unit ++ modifiedUtf8 rest := rfl
      rw [split, decodeModified_encodeUnit, ih]

end MineGPT.Lib.ModifiedUtf8
