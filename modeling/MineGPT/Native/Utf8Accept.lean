import MineGPT.Native.Utf8Stream

/-!
# What `_isValidUtf8` accepts

The scanner looks at the lead byte and at the two upper bits of the bytes behind
it, so it accepts the strings that can be cut into forms.  Those are the UTF-8
strings, and the ones with an overlong form, a surrogate or a code point above
U+10FFFF in them.
-/

set_option autoImplicit false

namespace MineGPT.Native

open MineGPT.Lib.ByteString MineGPT.Lib.Utf8

theorem lead_of_numBytes {b : UInt8} {num : Nat} (announced : numBytes b = some num) :
    Lead b num := by
  simp only [numBytes] at announced
  split at announced
  · rename_i one
    obtain rfl := Option.some.inj announced
    exact one
  · split at announced
    · rename_i two
      obtain rfl := Option.some.inj announced
      exact two
    · split at announced
      · rename_i three
        obtain rfl := Option.some.inj announced
        exact three
      · split at announced
        · rename_i four
          obtain rfl := Option.some.inj announced
          exact four
        · cases announced

theorem forms_of_scanUtf8 : ∀ (bytes : Bytes) (pending : Nat), 0 ∉ bytes →
    scanUtf8 pending bytes = true →
    ∃ (tail : Bytes) (forms : List Bytes), bytes = tail ++ forms.flatten ∧
      tail.length = pending ∧ (∀ b ∈ tail, Continuation b) ∧ ∀ form ∈ forms, Form form := by
  intro bytes
  induction bytes with
  | nil =>
      intro pending _ accepted
      cases pending with
      | zero => exact ⟨[], [], rfl, rfl, by simp, by simp⟩
      | succ pending => cases accepted
  | cons b rest ih =>
      intro pending noNul accepted
      rw [List.mem_cons, not_or] at noNul
      cases pending with
      | zero =>
          unfold scanUtf8 at accepted
          rw [if_neg (Ne.symm noNul.1)] at accepted
          cases announced : numBytes b with
          | none => simp [announced] at accepted
          | some num =>
              rw [announced] at accepted
              have lead := lead_of_numBytes announced
              obtain ⟨tail, forms, rfl, length, each, shape⟩ := ih (num - 1) noNul.2 accepted
              have positive : tail.length + 1 = num := by
                cases num with
                | zero => exact lead.elim
                | succ num => omega
              refine ⟨[], (b :: tail) :: forms, by simp, rfl, by simp, ?_⟩
              intro form member
              rcases List.mem_cons.mp member with rfl | later
              · exact ⟨b, tail, rfl, positive ▸ lead, each⟩
              · exact shape form later
      | succ pending =>
          unfold scanUtf8 at accepted
          split at accepted
          · cases accepted
          · rename_i continues
            obtain ⟨tail, forms, rfl, length, each, shape⟩ := ih pending noNul.2 accepted
            refine ⟨b :: tail, forms, rfl, by rw [List.length_cons, length], ?_, shape⟩
            intro c member
            rcases List.mem_cons.mp member with rfl | later
            · exact not_not.mp continues
            · exact each c later

theorem isValidUtf8_flatten {forms : List Bytes} (each : ∀ form ∈ forms, Form form)
    (noNul : 0 ∉ forms.flatten) : isValidUtf8 forms.flatten = true := by
  induction forms with
  | nil => rfl
  | cons first rest ih =>
      rw [List.flatten_cons, List.mem_append, not_or] at noNul
      rw [List.flatten_cons, isValidUtf8_form_append (each first (by simp)) noNul.1]
      exact ih (fun form member => each form (by simp [member])) noNul.2

theorem isValidUtf8_iff_forms (bytes : Bytes) :
    isValidUtf8 bytes = true ↔
      ∃ forms : List Bytes, (∀ form ∈ forms, Form form) ∧ cstr bytes = forms.flatten := by
  rw [← isValidUtf8_cstr]
  constructor
  · intro accepted
    obtain ⟨tail, forms, split, length, _, each⟩ :=
      forms_of_scanUtf8 (cstr bytes) 0 (zero_notMem_cstr bytes) accepted
    rw [List.length_eq_zero_iff.mp length, List.nil_append] at split
    exact ⟨forms, each, split⟩
  · rintro ⟨forms, each, split⟩
    have noNul := zero_notMem_cstr bytes
    rw [split] at noNul ⊢
    exact isValidUtf8_flatten each noNul

/-- On a string the scanner is right exactly when no form that it is cut into is
an excluded one. -/
theorem isValidUtf8_exact_iff (bytes : Bytes) :
    (isValidUtf8 bytes = true ↔ Valid (cstr bytes)) ↔
      ¬ ∃ forms : List Bytes, (∀ form ∈ forms, Form form) ∧ cstr bytes = forms.flatten ∧
        ∃ form ∈ forms, Excluded form := by
  constructor
  · rintro exact_ ⟨forms, each, split, form, member, excluded⟩
    have valid := exact_.mp ((isValidUtf8_iff_forms bytes).mpr ⟨forms, each, split⟩)
    rw [split, valid_flatten_iff each] at valid
    exact valid form member excluded
  · intro none
    constructor
    · intro accepted
      obtain ⟨forms, each, split⟩ := (isValidUtf8_iff_forms bytes).mp accepted
      rw [split, valid_flatten_iff each]
      exact fun form member excluded => none ⟨forms, each, split, form, member, excluded⟩
    · rintro ⟨text, split⟩
      have noNul := zero_notMem_cstr bytes
      rw [← isValidUtf8_cstr]
      rw [split] at noNul ⊢
      exact isValidUtf8_encode noNul

/-- The overlong form of U+0000. -/
theorem not_isValidUtf8_exact_overlong :
    isValidUtf8 [0xC0, 0x80, 0x00] = true ∧ ¬ Valid (cstr [0xC0, 0x80, 0x00]) := by
  have form : Form [0xC0, 0x80] :=
    ⟨0xC0, [0x80], rfl, (lead_two_iff 0xC0).mpr (by simp), by simp [continuation_iff]⟩
  have visible : cstr [0xC0, 0x80, 0x00] = [[0xC0, 0x80]].flatten := by decide
  refine ⟨by decide, fun valid => ?_⟩
  rw [visible, valid_flatten_iff (by simpa using form)] at valid
  exact valid [0xC0, 0x80] (by simp) (by decide)

end MineGPT.Native
