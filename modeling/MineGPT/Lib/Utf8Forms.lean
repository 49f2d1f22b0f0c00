import MineGPT.Lib.Utf8

/-!
# Forms

A lead byte followed by the continuation bytes it announces is the sequence of
a character, or one of the forms that UTF-8 excludes: overlong, of a surrogate,
or above U+10FFFF.  A string is cut into forms in at most one way.
-/

set_option autoImplicit false

namespace MineGPT.Lib.Utf8

open String (utf8EncodeChar)

def Form (bytes : List UInt8) : Prop :=
  ∃ lead tail, bytes = lead :: tail ∧ Lead lead (tail.length + 1) ∧ ∀ b ∈ tail, Continuation b

/-- The forms that encode no scalar value, or not in the shortest way. -/
def Excluded : List UInt8 → Prop
  | [a, _] => a.toNat ≤ 0xC1
  | [a, b, _] => (a.toNat = 0xE0 ∧ b.toNat < 0xA0) ∨ (a.toNat = 0xED ∧ 0xA0 ≤ b.toNat)
  | [a, b, _, _] =>
    (a.toNat = 0xF0 ∧ b.toNat < 0x90) ∨ (a.toNat = 0xF4 ∧ 0x90 ≤ b.toNat) ∨ 0xF5 ≤ a.toNat
  | _ => False

instance : (bytes : List UInt8) → Decidable (Excluded bytes)
  | [] => isFalse id
  | [_] => isFalse id
  | [a, _] => inferInstanceAs (Decidable (a.toNat ≤ 0xC1))
  | [a, b, _] =>
    inferInstanceAs (Decidable
      ((a.toNat = 0xE0 ∧ b.toNat < 0xA0) ∨ (a.toNat = 0xED ∧ 0xA0 ≤ b.toNat)))
  | [a, b, _, _] =>
    inferInstanceAs (Decidable ((a.toNat = 0xF0 ∧ b.toNat < 0x90) ∨
      (a.toNat = 0xF4 ∧ 0x90 ≤ b.toNat) ∨ 0xF5 ≤ a.toNat))
  | _ :: _ :: _ :: _ :: _ :: _ => isFalse id

theorem form_char (c : Char) : Form (utf8EncodeChar c) := utf8EncodeChar_shape c

/-! ## The bytes as numbers -/

theorem continuation_iff (b : UInt8) : Continuation b ↔ 0x80 ≤ b.toNat ∧ b.toNat < 0xC0 := by
  revert b
  apply forall_byte
  decide +kernel

theorem lead_one_iff (b : UInt8) : Lead b 1 ↔ b.toNat < 0x80 := by
  revert b
  apply forall_byte
  decide +kernel

theorem lead_two_iff (b : UInt8) : Lead b 2 ↔ 0xC0 ≤ b.toNat ∧ b.toNat < 0xE0 := by
  revert b
  apply forall_byte
  decide +kernel

theorem lead_three_iff (b : UInt8) : Lead b 3 ↔ 0xE0 ≤ b.toNat ∧ b.toNat < 0xF0 := by
  revert b
  apply forall_byte
  decide +kernel

theorem lead_four_iff (b : UInt8) : Lead b 4 ↔ 0xF0 ≤ b.toNat ∧ b.toNat < 0xF8 := by
  revert b
  apply forall_byte
  decide +kernel

theorem Lead.length_unique {b : UInt8} {first second : Nat} (one : Lead b first)
    (other : Lead b second) : first = second := by
  have range : ∀ {num : Nat}, Lead b num → num = 1 ∧ b.toNat < 0x80 ∨
      num = 2 ∧ 0xC0 ≤ b.toNat ∧ b.toNat < 0xE0 ∨ num = 3 ∧ 0xE0 ≤ b.toNat ∧ b.toNat < 0xF0 ∨
      num = 4 ∧ 0xF0 ≤ b.toNat ∧ b.toNat < 0xF8 := by
    intro num lead
    match num with
    | 0 => exact lead.elim
    | 1 => simpa using (lead_one_iff b).mp lead
    | 2 => simpa using (lead_two_iff b).mp lead
    | 3 => simpa using (lead_three_iff b).mp lead
    | 4 => simpa using (lead_four_iff b).mp lead
    | _ + 5 => exact lead.elim
  have := range one
  have := range other
  omega

theorem exists_char {v : Nat} (valid : v.isValidChar) : ∃ c : Char, c.val.toNat = v :=
  ⟨Char.ofNatAux v valid, rfl⟩

theorem byte_eq {b : UInt8} {n : Nat} (value : b.toNat = n) : UInt8.ofNat n = b := by
  rw [← value, UInt8.ofNat_toNat]

/-! ## Forms and characters -/

theorem char_of_one {a : UInt8} (lead : Lead a 1) : ∃ c, utf8EncodeChar c = [a] := by
  rw [lead_one_iff] at lead
  obtain ⟨c, value⟩ := exists_char (v := a.toNat) (Or.inl (by omega))
  refine ⟨c, ?_⟩
  unfold utf8EncodeChar
  rw [value, if_pos (by omega), byte_eq rfl]

theorem char_of_two {a b : UInt8} (lead : Lead a 2) (second : Continuation b)
    (short : ¬ Excluded [a, b]) : ∃ c, utf8EncodeChar c = [a, b] := by
  rw [lead_two_iff] at lead
  rw [continuation_iff] at second
  unfold Excluded at short
  obtain ⟨c, value⟩ := exists_char (v := (a.toNat - 0xC0) * 64 + (b.toNat - 0x80))
    (Or.inl (by omega))
  refine ⟨c, ?_⟩
  unfold utf8EncodeChar
  rw [value, if_neg (by omega), if_pos (by omega), byte_eq (b := a) (by omega),
    byte_eq (b := b) (by omega)]

theorem char_of_three {a b c : UInt8} (lead : Lead a 3) (second : Continuation b)
    (third : Continuation c) (allowed : ¬ Excluded [a, b, c]) :
    ∃ d, utf8EncodeChar d = [a, b, c] := by
  rw [lead_three_iff] at lead
  rw [continuation_iff] at second third
  unfold Excluded at allowed
  obtain ⟨d, value⟩ := exists_char
    (v := (a.toNat - 0xE0) * 4096 + (b.toNat - 0x80) * 64 + (c.toNat - 0x80)) (by
      unfold Nat.isValidChar
      omega)
  refine ⟨d, ?_⟩
  unfold utf8EncodeChar
  rw [value, if_neg (by omega), if_neg (by omega), if_pos (by omega),
    byte_eq (b := a) (by omega), byte_eq (b := b) (by omega), byte_eq (b := c) (by omega)]

theorem char_of_four {a b c d : UInt8} (lead : Lead a 4) (second : Continuation b)
    (third : Continuation c) (fourth : Continuation d) (allowed : ¬ Excluded [a, b, c, d]) :
    ∃ e, utf8EncodeChar e = [a, b, c, d] := by
  rw [lead_four_iff] at lead
  rw [continuation_iff] at second third fourth
  unfold Excluded at allowed
  obtain ⟨e, value⟩ := exists_char
    (v := (a.toNat - 0xF0) * 262144 + (b.toNat - 0x80) * 4096 + (c.toNat - 0x80) * 64 +
      (d.toNat - 0x80)) (by
      unfold Nat.isValidChar
      omega)
  refine ⟨e, ?_⟩
  unfold utf8EncodeChar
  rw [value, if_neg (by omega), if_neg (by omega), if_neg (by omega), byte_eq (b := a) (by omega),
    byte_eq (b := b) (by omega), byte_eq (b := c) (by omega), byte_eq (b := d) (by omega)]

theorem not_excluded_char (c : Char) : ¬ Excluded (utf8EncodeChar c) := by
  have scalar : c.val.toNat.isValidChar := c.valid
  unfold Nat.isValidChar at scalar
  unfold utf8EncodeChar
  generalize c.val.toNat = v at scalar
  simp only
  split
  · exact id
  · split
    · simp only [Excluded, UInt8.toNat_ofNat']
      omega
    · split
      · simp only [Excluded, UInt8.toNat_ofNat']
        omega
      · simp only [Excluded, UInt8.toNat_ofNat']
        omega

theorem Form.exists_char_iff {bytes : List UInt8} (form : Form bytes) :
    (∃ c, utf8EncodeChar c = bytes) ↔ ¬ Excluded bytes := by
  constructor
  · rintro ⟨c, rfl⟩
    exact not_excluded_char c
  · intro allowed
    obtain ⟨lead, tail, rfl, announces, each⟩ := form
    match tail with
    | [] => exact char_of_one announces
    | [b] => exact char_of_two announces (each b (by simp)) allowed
    | [b, c] => exact char_of_three announces (each b (by simp)) (each c (by simp)) allowed
    | [b, c, d] =>
        exact char_of_four announces (each b (by simp)) (each c (by simp)) (each d (by simp))
          allowed
    | _ :: _ :: _ :: _ :: _ => exact announces.elim

/-! ## Cutting a string into forms -/

theorem Form.append_inj {first second rest other : List UInt8} (one : Form first)
    (two : Form second) (same : first ++ rest = second ++ other) :
    first = second ∧ rest = other := by
  obtain ⟨lead, tail, rfl, announces, _⟩ := one
  obtain ⟨head, later, rfl, promises, _⟩ := two
  rw [List.cons_append, List.cons_append, List.cons.injEq] at same
  obtain ⟨rfl, same⟩ := same
  have lengths := announces.length_unique promises
  obtain ⟨rfl, rfl⟩ := List.append_inj same (by omega)
  exact ⟨rfl, rfl⟩

theorem Form.ne_nil {bytes : List UInt8} (form : Form bytes) : bytes ≠ [] := by
  obtain ⟨lead, tail, rfl, _⟩ := form
  exact List.cons_ne_nil lead tail

theorem forms_unique : ∀ {forms others : List (List UInt8)},
    (∀ form ∈ forms, Form form) → (∀ form ∈ others, Form form) →
    forms.flatten = others.flatten → forms = others := by
  intro forms
  induction forms with
  | nil =>
      intro others _ each same
      cases others with
      | nil => rfl
      | cons first rest =>
          rw [List.flatten_nil, List.flatten_cons] at same
          exact absurd (List.append_eq_nil_iff.mp same.symm).1 (each first (by simp)).ne_nil
  | cons first rest ih =>
      intro others every each same
      cases others with
      | nil =>
          rw [List.flatten_nil, List.flatten_cons] at same
          exact absurd (List.append_eq_nil_iff.mp same).1 (every first (by simp)).ne_nil
      | cons other more =>
          rw [List.flatten_cons, List.flatten_cons] at same
          obtain ⟨rfl, later⟩ := (every first (by simp)).append_inj (each other (by simp)) same
          rw [ih (fun form member => every form (by simp [member]))
            (fun form member => each form (by simp [member])) later]

theorem valid_flatten_iff {forms : List (List UInt8)} (each : ∀ form ∈ forms, Form form) :
    Valid forms.flatten ↔ ∀ form ∈ forms, ¬ Excluded form := by
  constructor
  · rintro ⟨text, same⟩ form member
    have chars : ∀ form ∈ text.map utf8EncodeChar, Form form := by
      simp only [List.mem_map]
      rintro form ⟨c, _, rfl⟩
      exact form_char c
    rw [encode, List.flatMap_def] at same
    rw [forms_unique each chars same, List.mem_map] at member
    obtain ⟨c, _, rfl⟩ := member
    exact not_excluded_char c
  · intro allowed
    induction forms with
    | nil => exact valid_encode []
    | cons first rest ih =>
        obtain ⟨c, here⟩ := ((each first (by simp)).exists_char_iff).mpr (allowed first (by simp))
        obtain ⟨text, later⟩ := ih (fun form member => each form (by simp [member]))
          (fun form member => allowed form (by simp [member]))
        exact ⟨c :: text, by rw [List.flatten_cons, later, encode_cons, here]⟩

/-! ## An unfinished character at the end of a string -/

theorem PartialChar.begun_shape {bytes : List UInt8} (unfinished : PartialChar bytes)
    (begun : bytes ≠ []) :
    ∃ lead tail num, bytes = lead :: tail ∧ Lead lead num ∧ tail.length + 1 < num ∧
      ∀ b ∈ tail, Continuation b := by
  obtain ⟨c, b, more, sequence⟩ := unfinished
  obtain ⟨lead, whole, shape, announces, each⟩ := utf8EncodeChar_shape c
  cases bytes with
  | nil => exact absurd rfl begun
  | cons first tail =>
      rw [shape, List.cons_append, List.cons.injEq] at sequence
      obtain ⟨rfl, rfl⟩ := sequence
      exact ⟨lead, tail, _, rfl, announces, by simp, fun b member => each b (by simp [member])⟩

theorem Lead.not_continuation {b : UInt8} {num : Nat} (lead : Lead b num) : ¬ Continuation b := by
  rw [continuation_iff]
  match num with
  | 1 => exact fun inside => absurd ((lead_one_iff b).mp lead) (by omega)
  | 2 => exact fun inside => absurd ((lead_two_iff b).mp lead) (by omega)
  | 3 => exact fun inside => absurd ((lead_three_iff b).mp lead) (by omega)
  | 4 => exact fun inside => absurd ((lead_four_iff b).mp lead) (by omega)
  | 0 => exact lead.elim
  | _ + 5 => exact lead.elim

/-- The same string ends with only one lead byte and its continuation bytes. -/
theorem lead_suffix_unique {lead head : UInt8} {tail other whole : List UInt8} {num count : Nat}
    (one : Lead lead num) (each : ∀ b ∈ tail, Continuation b)
    (two : Lead head count) (every : ∀ b ∈ other, Continuation b)
    (first : lead :: tail <:+ whole) (second : head :: other <:+ whole) :
    lead = head ∧ tail = other := by
  have inside : ∀ {a b : UInt8} {front back : List UInt8} {n : Nat}, Lead a n →
      (∀ c ∈ back, Continuation c) → a :: front <:+ b :: back → a = b ∧ front = back := by
    intro a b front back n starts continues behind
    rcases List.suffix_cons_iff.mp behind with same | within
    · exact List.cons.inj same
    · exact absurd (continues a (within.subset (by simp))) starts.not_continuation
  rcases List.suffix_or_suffix_of_suffix first second with short | long
  · exact inside one every short
  · obtain ⟨rfl, rfl⟩ := inside two each long
    exact ⟨rfl, rfl⟩

/-- No text ends where a character is unfinished. -/
theorem PartialChar.not_suffix {bytes whole : List UInt8} {text : List Char}
    (unfinished : PartialChar bytes) (begun : bytes ≠ []) (some : text ≠ [])
    (ends : bytes <:+ whole) : ¬ encode text <:+ whole := by
  intro written
  obtain ⟨lead, tail, num, rfl, announces, short, each⟩ := unfinished.begun_shape begun
  obtain ⟨last, more, shape, promises, every⟩ := utf8EncodeChar_shape (text.getLast some)
  have final : last :: more <:+ encode text := by
    rw [← shape]
    refine ⟨encode text.dropLast, ?_⟩
    have joined := congrArg encode (List.dropLast_append_getLast some)
    rwa [encode_append, encode_cons, encode_nil, List.append_nil] at joined
  obtain ⟨rfl, rfl⟩ :=
    lead_suffix_unique announces each promises every ends (final.trans written)
  have := announces.length_unique promises
  omega

/-! ## Pieces of a text -/

/-- The piece ends the unfinished character before it, and the rest of it is whole
characters. -/
def Completes (unfinished piece : List UInt8) : Prop :=
  ∃ (tail : List UInt8) (forms : List (List UInt8)), piece = tail ++ forms.flatten ∧
    (∀ form ∈ forms, Form form) ∧ (unfinished ++ tail = [] ∨ Form (unfinished ++ tail))

/-- Every piece stays inside one character, or ends where a character ends. -/
def Aligned : List UInt8 → List (List UInt8) → Prop
  | _, [] => True
  | unfinished, piece :: rest =>
    (PartialChar (unfinished ++ piece) ∧ Aligned (unfinished ++ piece) rest) ∨
      (Completes unfinished piece ∧ Aligned [] rest)

theorem completes_iff_forms {unfinished piece : List UInt8} (before : PartialChar unfinished) :
    Completes unfinished piece ↔
      ∃ forms : List (List UInt8), (∀ form ∈ forms, Form form) ∧
        unfinished ++ piece = forms.flatten := by
  constructor
  · rintro ⟨tail, forms, rfl, each, empty | whole⟩
    · exact ⟨forms, each, by rw [← List.append_assoc, empty, List.nil_append]⟩
    · exact ⟨(unfinished ++ tail) :: forms, by simpa [whole] using each, by simp⟩
  · rintro ⟨forms, each, cut⟩
    by_cases begun : unfinished = []
    · subst begun
      exact ⟨[], forms, cut, each, Or.inl rfl⟩
    · obtain ⟨lead, tail, num, rfl, announces, short, _⟩ := before.begun_shape begun
      cases forms with
      | nil => simp at cut
      | cons first rest =>
          obtain ⟨head, more, rfl, promises, _⟩ := each first (by simp)
          rw [List.flatten_cons, List.cons_append, List.cons_append, List.cons.injEq] at cut
          obtain ⟨rfl, cut⟩ := cut
          have length := announces.length_unique promises
          -- the first form is longer than what is unfinished
          rcases List.append_eq_append_iff.mp cut with ⟨missing, rfl, rfl⟩ | ⟨beyond, rfl, _⟩
          · exact ⟨missing, rest, rfl, fun form member => each form (by simp [member]),
              Or.inr (each _ (by simp))⟩
          · simp only [List.length_append] at short
            omega

theorem PartialChar.ne_forms {bytes : List UInt8} {forms : List (List UInt8)}
    (unfinished : PartialChar bytes) (begun : bytes ≠ []) (each : ∀ form ∈ forms, Form form) :
    bytes ≠ forms.flatten := by
  obtain ⟨lead, tail, num, rfl, announces, short, _⟩ := unfinished.begun_shape begun
  intro cut
  cases forms with
  | nil => simp at cut
  | cons first rest =>
      obtain ⟨head, more, rfl, promises, _⟩ := each first (by simp)
      rw [List.flatten_cons, List.cons_append, List.cons.injEq] at cut
      obtain ⟨rfl, rfl⟩ := cut
      have length := announces.length_unique promises
      rw [List.length_append] at short
      omega

end MineGPT.Lib.Utf8
