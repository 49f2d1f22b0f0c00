import MineGPT.Lib.TextSearch
import MineGPT.Lib.Utf8Forms

/-!
# Finding and replacing characters in UTF-8

Whole characters are found at the places of characters only, so that replacing
the bytes of one character by those of another is replacing the character.
-/

set_option autoImplicit false

namespace MineGPT.Lib.Utf8

open String (utf8EncodeChar)
open MineGPT.Lib.TextSearch

theorem utf8EncodeChar_inj {c d : Char} (same : utf8EncodeChar c = utf8EncodeChar d) : c = d := by
  have first := ByteArray.utf8DecodeChar?_utf8EncodeChar_append (b := ByteArray.empty) (c := c)
  have second := ByteArray.utf8DecodeChar?_utf8EncodeChar_append (b := ByteArray.empty) (c := d)
  rw [same, second, Option.some.injEq] at first
  exact first.symm

theorem char_append_inj {c d : Char} {rest other : List UInt8}
    (same : utf8EncodeChar c ++ rest = utf8EncodeChar d ++ other) : c = d ∧ rest = other := by
  obtain ⟨equal, later⟩ := (form_char c).append_inj (form_char d) same
  exact ⟨utf8EncodeChar_inj equal, later⟩

theorem encode_prefix : ∀ (found text : List Char) (rest : List UInt8),
    encode text = encode found ++ rest → ∃ after, text = found ++ after ∧ rest = encode after := by
  intro found
  induction found with
  | nil => intro text rest same; exact ⟨text, rfl, same.symm⟩
  | cons c found ih =>
      intro text rest same
      rw [encode_cons, List.append_assoc] at same
      cases text with
      | nil => exact absurd (List.append_eq_nil_iff.mp same.symm).1 String.utf8EncodeChar_ne_nil
      | cons d text =>
          rw [encode_cons] at same
          obtain ⟨rfl, later⟩ := char_append_inj same
          obtain ⟨after, rfl, back⟩ := ih text rest later
          exact ⟨after, rfl, back⟩

theorem encode_injective : Function.Injective encode := by
  intro first second same
  obtain ⟨after, rfl, none⟩ := encode_prefix second first [] (by rw [same, List.append_nil])
  rw [encode_eq_nil none.symm, List.append_nil]

theorem not_continuation_head (text : List Char) {b : UInt8} {rest : List UInt8}
    (bytes : encode text = b :: rest) : ¬ Continuation b := by
  cases text with
  | nil => cases bytes
  | cons c text =>
      obtain ⟨lead, tail, sequence, announces, _⟩ := utf8EncodeChar_shape c
      rw [encode_cons, sequence, List.cons_append, List.cons.injEq] at bytes
      obtain ⟨rfl, _⟩ := bytes
      intro continuation
      rw [continuation_iff] at continuation
      match tail, announces with
      | [], one => have range := (lead_one_iff lead).mp one; omega
      | [_], two => have range := (lead_two_iff lead).mp two; omega
      | [_, _], three => have range := (lead_three_iff lead).mp three; omega
      | [_, _, _], four => have range := (lead_four_iff lead).mp four; omega

theorem encode_infix {text found : List Char} {before after : List UInt8} (nonempty : found ≠ [])
    (stands : encode text = before ++ (encode found ++ after)) :
    ∃ front back, text = front ++ (found ++ back) ∧ before = encode front ∧
      after = encode back := by
  obtain ⟨front, todo, inside, rfl, rfl, bytes, ends⟩ := exists_boundary text before _ stands
  have whole : inside = [] := by
    rcases ends with none | ⟨c, later, b, more, rfl, sequence⟩
    · exact none
    · by_contra begun
      have continuation := continuation_of_inside sequence begun
      obtain ⟨head, tail, shape⟩ := List.exists_cons_of_ne_nil
        (fun none => nonempty (encode_eq_nil none) : encode found ≠ [])
      rw [encode_cons, sequence, List.append_assoc, List.append_cancel_left_eq, shape,
        List.cons_append, List.cons_append, List.cons.injEq] at bytes
      exact not_continuation_head found shape (bytes.1 ▸ continuation)
  subst whole
  obtain ⟨back, rfl, rest⟩ := encode_prefix found todo after bytes
  exact ⟨front, back, rfl, by rw [List.append_nil], rest⟩

/-- Replacing the bytes of a character replaces the character. -/
theorem substitute_encode (search replace : Char) (text : List Char) :
    substitute (utf8EncodeChar search) (utf8EncodeChar replace) 0 (encode text) =
      encode (text.map fun c => if c = search then replace else c) := by
  induction text with
  | nil => rfl
  | cons c text ih =>
      rw [encode_cons, List.map_cons, encode_cons, ← ih]
      by_cases here : c = search
      · rw [if_pos here, here, substitute_match String.utf8EncodeChar_ne_nil]
      · have misses : ∀ i < (utf8EncodeChar c).length,
            ¬ utf8EncodeChar search <+: (utf8EncodeChar c ++ encode text).drop i := by
          intro i inside ⟨rest, stands⟩
          have first : encode [search] = utf8EncodeChar search := by simp
          have bytes : encode (c :: text) =
              (utf8EncodeChar c ++ encode text).take i ++ (encode [search] ++ rest) := by
            rw [first, stands, List.take_append_drop, encode_cons]
          obtain ⟨front, back, split, before, _⟩ := encode_infix (List.cons_ne_nil _ _) bytes
          cases front with
          | nil =>
              rw [List.nil_append, List.singleton_append, List.cons.injEq] at split
              exact here split.1
          | cons d front =>
              rw [List.cons_append, List.cons.injEq] at split
              have size := congrArg List.length before
              rw [← split.1, encode_cons, List.length_append, List.length_take] at size
              omega
        rw [if_neg here, substitute_until _ _ (by simp) misses, List.take_left, List.drop_left]

theorem replaceAll_encode (search replace : Char) (text : List Char) :
    replaceAll (encode text) (encode [search]) (encode [replace]) =
      encode (text.map fun c => if c = search then replace else c) := by
  have nonempty : encode [search] ≠ [] := fun none => List.cons_ne_nil _ _ (encode_eq_nil none)
  rw [replaceAll_eq nonempty, ← substitute_encode]
  simp

/-! ## Boundaries -/

def Boundary (text : List Char) (i : Nat) : Prop :=
  ∃ front back, text = front ++ back ∧ (encode front).length = i

section Boundary

variable {text : List Char} {i : Nat}

theorem boundary_zero : Boundary text 0 := ⟨[], text, rfl, rfl⟩

theorem boundary_length : Boundary text (encode text).length := ⟨text, [], by simp, rfl⟩

theorem boundary_found {found : List Char} (nonempty : found ≠ [])
    (stands : encode found <+: (encode text).drop i) :
    Boundary text i ∧ Boundary text (i + (encode found).length) := by
  obtain ⟨after, same⟩ := stands
  have inside : i ≤ (encode text).length := by
    by_contra outside
    rw [List.drop_eq_nil_of_le (by omega)] at same
    exact nonempty (encode_eq_nil (List.append_eq_nil_iff.mp same).1)
  have split : encode text = (encode text).take i ++ (encode found ++ after) := by
    rw [same, List.take_append_drop]
  obtain ⟨front, back, rfl, before, _⟩ := encode_infix nonempty split
  have place : (encode front).length = i := by
    rw [← before, List.length_take, Nat.min_eq_left inside]
  refine ⟨⟨front, found ++ back, rfl, place⟩, front ++ found, back, by simp, ?_⟩
  rw [encode_append, List.length_append, place]

theorem Boundary.slice {n : Nat} (start : Boundary text i) (stop : Boundary text (i + n)) :
    ∃ before part after, text = before ++ (part ++ after) ∧
      ((encode text).drop i).take n = encode part := by
  obtain ⟨front, behind, rfl, atStart⟩ := start
  obtain ⟨upTo, after, same, atStop⟩ := stop
  have bytes : encode front ++ encode behind = encode upTo ++ encode after := by
    rw [← encode_append, same, encode_append]
  have ahead : encode front <+: encode upTo :=
    List.prefix_of_prefix_length_le ⟨_, bytes⟩ ⟨_, rfl⟩ (by omega)
  obtain ⟨rest, longer⟩ := ahead
  obtain ⟨part, rfl, rfl⟩ := encode_prefix front upTo rest longer.symm
  rw [List.append_assoc, List.append_cancel_left_eq] at same
  subst same
  refine ⟨front, part, after, rfl, ?_⟩
  have size : (encode part).length = n := by
    rw [encode_append, List.length_append] at atStop
    omega
  rw [encode_append, List.drop_left' atStart, encode_append, List.take_left' size]

theorem encode_ascii {c : Char} {b : UInt8} {tail : List UInt8} (small : b.toNat < 0x80)
    (sequence : utf8EncodeChar c = b :: tail) : tail = [] := by
  obtain ⟨lead, rest, shape, announces, _⟩ := utf8EncodeChar_shape c
  rw [shape, List.cons.injEq] at sequence
  obtain ⟨rfl, rfl⟩ := sequence
  have one := announces.length_unique ((lead_one_iff lead).mpr small)
  exact List.eq_nil_of_length_eq_zero (by omega)

theorem boundary_ascii (nonzero : (encode text).getD i 0 ≠ 0)
    (small : ((encode text).getD i 0).toNat < 0x80) : Boundary text i ↔ Boundary text (i + 1) := by
  have inside : i < (encode text).length := by
    by_contra outside
    rw [List.getD_eq_getElem?_getD, List.getElem?_eq_none (by omega)] at nonzero
    exact nonzero rfl
  constructor
  · rintro ⟨front, back, rfl, place⟩
    cases back with
    | nil =>
        rw [List.append_nil] at inside
        omega
    | cons c back =>
        obtain ⟨b, tail, sequence⟩ :=
          List.exists_cons_of_ne_nil (String.utf8EncodeChar_ne_nil (c := c))
        have here : (encode (front ++ c :: back)).getD i 0 = b := by
          rw [encode_append, encode_cons, sequence, ← place]
          simp
        rw [here] at small
        have one := encode_ascii small sequence
        refine ⟨front ++ [c], back, by simp, ?_⟩
        rw [encode_append, List.length_append, place, encode_cons, sequence, one]
        simp
  · rintro ⟨front, back, rfl, place⟩
    rcases List.eq_nil_or_concat front with rfl | ⟨front, c, rfl⟩
    · cases place
    · rw [List.concat_eq_append] at *
      have size := place
      rw [encode_append, List.length_append, encode_cons, encode_nil, List.append_nil] at size
      refine ⟨front, c :: back, by simp, ?_⟩
      obtain ⟨lead, tail, shape, announces, each⟩ := utf8EncodeChar_shape c
      rw [shape, List.length_cons] at size
      rcases List.eq_nil_or_concat tail with rfl | ⟨tail, b, rfl⟩
      · simp only [List.length_nil] at size
        omega
      · rw [List.concat_eq_append] at *
        have last : (encode (front ++ [c] ++ back)).getD i 0 = b := by
          have spot : i = (encode front ++ lead :: tail).length := by
            simp only [List.length_append, List.length_cons, List.length_nil] at size ⊢
            omega
          have bytes : encode (front ++ [c] ++ back) =
              (encode front ++ lead :: tail) ++ b :: encode back := by
            simp [shape]
          rw [bytes, spot]
          simp
        have continuation := each b (by simp)
        rw [continuation_iff] at continuation
        rw [last] at small
        omega

end Boundary

end MineGPT.Lib.Utf8
