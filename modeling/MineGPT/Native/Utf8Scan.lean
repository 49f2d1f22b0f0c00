import MineGPT.Lib.ByteString

/-!
# `_isValidUtf8`

The scanner that decides whether the pending token pieces may be shown: lead
bytes announce how many continuation bytes follow.  It reads a C string, so it
stops at the first NUL, and a string that ends inside a character is rejected
because the terminator is no continuation byte.
-/

set_option autoImplicit false

namespace MineGPT.Native

open MineGPT.Lib.ByteString

def numBytes (lead : UInt8) : Option Nat :=
  if lead &&& 0x80 = 0x00 then some 1
  else if lead &&& 0xE0 = 0xC0 then some 2
  else if lead &&& 0xF0 = 0xE0 then some 3
  else if lead &&& 0xF8 = 0xF0 then some 4
  else none

/-- The scan with `pending` continuation bytes still to come. -/
def scanUtf8 : Nat → Bytes → Bool
  | 0, [] => true
  | _ + 1, [] => false
  | 0, b :: rest =>
    if b = 0 then true
    else
      match numBytes b with
      | none => false
      | some num => scanUtf8 (num - 1) rest
  | pending + 1, b :: rest => if b &&& 0xC0 ≠ 0x80 then false else scanUtf8 pending rest

/-- `_isValidUtf8(response.c_str())`. -/
def isValidUtf8 (response : Bytes) : Bool := scanUtf8 0 response

@[simp] theorem isValidUtf8_nil : isValidUtf8 [] = true := rfl

theorem numBytes_ascii {b : UInt8} (ascii : b < 0x80) : numBytes b = some 1 := by
  have small : ∀ n < 128, UInt8.ofNat n &&& 0x80 = 0x00 := by decide
  have oneByte := small b.toNat (UInt8.lt_iff_toNat_lt.mp ascii)
  rw [UInt8.ofNat_toNat] at oneByte
  rw [numBytes, if_pos oneByte]

theorem isValidUtf8_of_ascii {bytes : Bytes} (ascii : ∀ b ∈ bytes, b < 0x80) :
    isValidUtf8 bytes = true := by
  induction bytes with
  | nil => rfl
  | cons b rest ih =>
      have later := ih fun c member => ascii c (by simp [member])
      simp only [isValidUtf8, scanUtf8, numBytes_ascii (ascii b (by simp))]
      split
      · rfl
      · exact later

/-- What is visible of the string decides, and it is read to its end. -/
theorem isValidUtf8_cstr (bytes : Bytes) : isValidUtf8 (cstr bytes) = isValidUtf8 bytes := by
  have scan : ∀ (bytes : Bytes) (pending : Nat),
      scanUtf8 pending (cstr bytes) = scanUtf8 pending bytes := by
    intro bytes
    induction bytes with
    | nil => intro pending; rfl
    | cons b rest ih =>
        intro pending
        by_cases zero : b = 0
        · subst zero
          cases pending <;> simp [scanUtf8]
        · rw [cstr_cons zero]
          cases pending with
          | zero =>
              simp only [scanUtf8, zero, if_false]
              cases numBytes b with
              | none => rfl
              | some num => exact ih (num - 1)
          | succ pending =>
              simp only [scanUtf8]
              rw [ih pending]
  exact scan bytes 0

end MineGPT.Native
