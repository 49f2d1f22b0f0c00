import Mathlib.Data.List.Basic
import Mathlib.Data.List.DropRight

/-!
# Bytes and NUL-terminated strings

`Bytes` is the content of a `std::string` or of a `char` buffer; it may hold
any byte.  A `CString` is what a `const char *` points to, without its
terminator: it holds no NUL byte by construction, so that copying one with
`strncpy` or measuring it with `strlen` never stops early.
-/

set_option autoImplicit false

namespace MineGPT.Lib.ByteString

abbrev Bytes := List UInt8

/-- The bytes of a source literal, as the compiler stores it (UTF-8). -/
def lit (s : String) : Bytes := s.toUTF8.data.toList

theorem lit_eq_nil_iff (s : String) : lit s = [] ↔ s = "" := by
  have length : (lit s).length = s.utf8ByteSize := rfl
  rw [← List.length_eq_zero_iff, length, String.utf8ByteSize_eq_zero_iff]

/-- What a reader of `s.c_str()` sees: the bytes before the first NUL. -/
def cstr (bytes : Bytes) : Bytes := bytes.takeWhile (· ≠ 0)

@[simp] theorem cstr_zero_cons (rest : Bytes) : cstr (0 :: rest) = [] := by
  simp [cstr]

theorem cstr_cons {b : UInt8} (nonzero : b ≠ 0) (rest : Bytes) :
    cstr (b :: rest) = b :: cstr rest := by
  simp [cstr, nonzero]

theorem zero_notMem_cstr (bytes : Bytes) : 0 ∉ cstr bytes := by
  intro member
  have := List.mem_takeWhile_imp member
  simp at this

theorem cstr_le (bytes : Bytes) : cstr bytes <+: bytes := List.takeWhile_prefix _

theorem cstr_le_append (bytes more : Bytes) : cstr bytes <+: cstr (bytes ++ more) := by
  induction bytes with
  | nil => exact List.nil_prefix
  | cons b rest ih =>
      by_cases zero : b = 0
      · subst zero
        rw [List.cons_append, cstr_zero_cons]
        exact List.nil_prefix
      · rw [List.cons_append, cstr_cons zero, cstr_cons zero]
        exact List.cons_prefix_cons.mpr ⟨rfl, ih⟩

theorem cstr_eq_self {bytes : Bytes} (noNul : 0 ∉ bytes) : cstr bytes = bytes := by
  rw [cstr, List.takeWhile_eq_self_iff]
  intro b member
  have : b ≠ 0 := fun zero => noNul (zero ▸ member)
  simpa using this

theorem cstr_append {bytes : Bytes} (noNul : 0 ∉ bytes) (more : Bytes) :
    cstr (bytes ++ more) = bytes ++ cstr more := by
  apply List.takeWhile_append_of_pos
  intro b member
  have : b ≠ 0 := fun zero => noNul (zero ▸ member)
  simpa using this

theorem cstr_append_zero (bytes behind : Bytes) : cstr (bytes ++ 0 :: behind) = cstr bytes := by
  induction bytes with
  | nil => exact cstr_zero_cons behind
  | cons b rest ih =>
      by_cases zero : b = 0
      · subst zero
        rw [List.cons_append, cstr_zero_cons, cstr_zero_cons]
      · rw [List.cons_append, cstr_cons zero, cstr_cons zero, ih]

theorem idxOf_zero (bytes : Bytes) : bytes.idxOf 0 = (cstr bytes).length := by
  induction bytes with
  | nil => rfl
  | cons b rest ih =>
      by_cases zero : b = 0
      · subst zero
        rw [List.idxOf_cons_self, cstr_zero_cons, List.length_nil]
      · rw [List.idxOf_cons_ne rest zero, cstr_cons zero, List.length_cons, ih]

theorem exists_cstr_append {bytes : Bytes} (nul : 0 ∈ bytes) :
    ∃ front behind, bytes = front ++ 0 :: behind ∧ ∀ more, cstr (bytes ++ more) = front := by
  obtain ⟨front, behind, rfl, noNul⟩ := List.eq_append_cons_of_mem nul
  refine ⟨front, behind, rfl, fun more => ?_⟩
  rw [List.append_assoc, cstr_append noNul, List.cons_append, cstr_zero_cons, List.append_nil]

@[ext] structure CString where
  bytes : Bytes
  noNul : 0 ∉ bytes

namespace CString

attribute [simp] CString.noNul

instance : DecidableEq CString := fun a b =>
  decidable_of_iff (a.bytes = b.bytes) CString.ext_iff.symm

/-- `strdup(s.data())`: the copy ends at the first NUL. -/
def ofBytes (bytes : Bytes) : CString := ⟨cstr bytes, zero_notMem_cstr bytes⟩

@[simp] theorem ofBytes_bytes (bytes : Bytes) : (ofBytes bytes).bytes = cstr bytes := rfl

end CString

/-- `strncpy(buf, src, length)` on a buffer of `length` bytes: the text up to its
first NUL, cut at the buffer's end or padded with zeros up to it. -/
def strncpy (length : Nat) (src : Bytes) : Bytes :=
  (cstr src).take length ++ List.replicate (length - (cstr src).length) 0

theorem strncpy_length (length : Nat) (src : Bytes) : (strncpy length src).length = length := by
  simp [strncpy]
  omega

theorem take_strncpy {length : Nat} {src : Bytes} (noNul : 0 ∉ src)
    (fits : src.length ≤ length) : (strncpy length src).take src.length = src := by
  rw [strncpy, cstr_eq_self noNul, List.take_of_length_le fits, List.take_left']
  rfl

end MineGPT.Lib.ByteString
