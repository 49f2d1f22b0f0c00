import MineGPT.Lib.Access
import MineGPT.Lib.Utf8
import MineGPT.Native.Utf8Scan

/-!
# Where `_isValidUtf8` reads

The scanner walks over the string with a pointer.  Only between two characters
does it look for the terminator; inside of a character it goes on for as long as
the bytes are continuation bytes.  The terminator is none, so the pointer never
passes it: every byte read is up to the first NUL, and `true` is returned there.
-/

set_option autoImplicit false

namespace MineGPT.Native

open MineGPT.Lib MineGPT.Lib.Access MineGPT.Lib.ByteString MineGPT.Lib.Utf8

/-! ## The walk -/

/-- What is returned, and where `bytes` points then. -/
structure Stop where
  returned : Bool
  bytes : Option Nat
  deriving DecidableEq, Repr

/-- `for (int i = 1; i < num; ++i)` with this many rounds to go.  The pointer
behind them is on the left, a `return` on the right. -/
def continuations : Nat → Nat → Access UInt8 (Nat ⊕ Stop)
  | 0, bytes => pure (.inl bytes)
  | rounds + 1, bytes => do
    let byte ← read bytes
    if byte &&& 0xC0 ≠ 0x80 then pure (.inr ⟨false, some bytes⟩)
    else continuations rounds (bytes + 1)

/-- One round of `while (*bytes != 0x00)`; the byte is read in each test. -/
def character (bytes : Nat) : Access UInt8 (Nat ⊕ Stop) := do
  let lead ← read bytes
  if lead = 0x00 then pure (.inr ⟨true, some bytes⟩)
  else
    match numBytes lead with
    | none => pure (.inr ⟨false, some bytes⟩)
    | some num => continuations (num - 1) (bytes + 1)

/-- `_isValidUtf8(response)`, where `none` is a null pointer and an index points
into the memory. -/
def isValidUtf8At (fuel : Nat) : Option Nat → Access UInt8 Stop
  | none => pure ⟨true, none⟩
  | some response => loop character fuel response

/-! ## Up to the terminator -/

/-- The first NUL of the memory is at this index. -/
structure Terminated (memory : Bytes) (n : Nat) : Prop where
  terminator : memory[n]? = some 0
  before : ∀ i < n, memory[i]? ≠ some 0

theorem terminated_idxOf {memory : Bytes} (contains : 0 ∈ memory) :
    Terminated memory (memory.idxOf 0) := by
  have inside : memory.idxOf 0 < memory.length := List.idxOf_lt_length_of_mem contains
  constructor
  · rw [List.getElem?_eq_getElem inside, List.getElem_idxOf]
  · intro i early isNul
    obtain ⟨_, here⟩ := List.getElem?_eq_some_iff.mp isNul
    have other := List.not_of_lt_findIdx early
    simp [here] at other

theorem drop_at {memory : Bytes} {bytes : Nat} {byte : UInt8} (there : memory[bytes]? = some byte) :
    memory.drop bytes = byte :: memory.drop (bytes + 1) := by
  obtain ⟨inside, rfl⟩ := List.getElem?_eq_some_iff.mp there
  exact List.drop_eq_getElem_cons inside

section Walk

variable {memory : Bytes} {n : Nat} (terminated : Terminated memory n)
include terminated

theorem Terminated.byte_at {bytes : Nat} (inside : bytes ≤ n) :
    ∃ byte, memory[bytes]? = some byte := by
  obtain ⟨within, _⟩ := List.getElem?_eq_some_iff.mp terminated.terminator
  exact ⟨memory[bytes], List.getElem?_eq_getElem (by omega)⟩

theorem Terminated.ne_zero {bytes : Nat} {byte : UInt8} (early : bytes < n)
    (there : memory[bytes]? = some byte) : byte ≠ 0 := by
  rintro rfl
  exact terminated.before bytes early there

theorem Terminated.next_le {bytes : Nat} {byte : UInt8} (inside : bytes ≤ n)
    (there : memory[bytes]? = some byte) (nonzero : byte ≠ 0) : bytes + 1 ≤ n := by
  rcases Nat.lt_or_eq_of_le inside with early | rfl
  · exact early
  · rw [terminated.terminator] at there
    exact absurd (Option.some.inj there).symm nonzero

theorem Terminated.eq_of_zero {bytes : Nat} (inside : bytes ≤ n)
    (there : memory[bytes]? = some 0) : bytes = n := by
  rcases Nat.lt_or_eq_of_le inside with early | same
  · exact absurd there (terminated.before bytes early)
  · exact same

end Walk

/-- The pointer has come from `start` to a byte from where on the memory decides
as it should, or it has been decided. -/
def Reached (memory : Bytes) (n start : Nat) (verdict : Bool) : Nat ⊕ Stop → Prop :=
  Sum.elim
    (fun next => start ≤ next ∧ next ≤ n ∧ scanUtf8 0 (memory.drop next) = verdict)
    (fun stop => stop.returned = verdict ∧ (stop.returned = true → stop.bytes = some n))

theorem holds_continuations {memory : Bytes} {n start : Nat} {verdict : Bool}
    (terminated : Terminated memory n) :
    ∀ (rounds bytes : Nat), start ≤ bytes → bytes ≤ n →
      scanUtf8 rounds (memory.drop bytes) = verdict →
      Holds memory (· ≤ n) (continuations rounds bytes) (Reached memory n start verdict) := by
  intro rounds
  induction rounds with
  | zero =>
      intro bytes begun inside decides
      exact holds_pure ⟨begun, inside, decides⟩
  | succ rounds ih =>
      intro bytes begun inside decides
      obtain ⟨byte, there⟩ := terminated.byte_at inside
      rw [drop_at there, scanUtf8] at decides
      refine (holds_read there inside).bind fun value same => ?_
      subst same
      by_cases continues : value &&& 0xC0 ≠ 0x80
      · rw [if_pos continues] at decides ⊢
        exact holds_pure ⟨decides, fun accepted => absurd accepted Bool.false_ne_true⟩
      · -- The terminator fails the mask, so this byte is not it.
        rw [if_neg continues] at decides ⊢
        have nonzero := continuation_ne_zero (not_not.mp continues)
        have next := terminated.next_le inside there nonzero
        exact ih (bytes + 1) (by omega) next decides

theorem holds_character {memory : Bytes} {n bytes : Nat} {verdict : Bool}
    (terminated : Terminated memory n) (inside : bytes ≤ n)
    (decides : scanUtf8 0 (memory.drop bytes) = verdict) :
    Holds memory (· ≤ n) (character bytes) (Reached memory n (bytes + 1) verdict) := by
  obtain ⟨lead, there⟩ := terminated.byte_at inside
  rw [drop_at there, scanUtf8] at decides
  refine (holds_read there inside).bind fun value same => ?_
  subst same
  by_cases zero : value = 0
  · rw [if_pos zero] at decides ⊢
    subst zero
    have atEnd := terminated.eq_of_zero inside there
    exact holds_pure ⟨decides, fun _ => congrArg some atEnd⟩
  · rw [if_neg zero] at decides ⊢
    have next := terminated.next_le inside there zero
    cases announced : numBytes value with
    | none =>
        rw [announced] at decides
        exact holds_pure ⟨decides, fun accepted => absurd accepted Bool.false_ne_true⟩
    | some num =>
        rw [announced] at decides
        exact holds_continuations terminated (num - 1) (bytes + 1) (Nat.le_refl _) next decides

theorem holds_isValidUtf8At {memory : Bytes} {n fuel : Nat} (terminated : Terminated memory n)
    (enough : n < fuel) :
    Holds memory (· ≤ n) (isValidUtf8At fuel (some 0)) fun stop =>
      stop.returned = isValidUtf8 memory ∧ (stop.returned = true → stop.bytes = some n) := by
  refine holds_loop
    (fun bytes => bytes ≤ n ∧ scanUtf8 0 (memory.drop bytes) = isValidUtf8 memory)
    (fun bytes => n - bytes) ?_ fuel 0 ⟨Nat.zero_le n, rfl⟩ enough
  rintro bytes ⟨inside, decides⟩
  refine (holds_character terminated inside decides).mono ?_
  intro outcome reached
  cases outcome with
  | inl next =>
      obtain ⟨further, inside', decides'⟩ := reached
      exact ⟨⟨inside', decides'⟩, by omega⟩
  | inr stop => exact reached

theorem holds_c_str (response behind : Bytes) {fuel : Nat}
    (enough : (cstr response).length < fuel) :
    Holds (response ++ 0 :: behind) (· ≤ (cstr response).length) (isValidUtf8At fuel (some 0))
      fun stop => stop.returned = isValidUtf8 response := by
  have contains : 0 ∈ response ++ 0 :: behind := by simp
  have terminated := terminated_idxOf contains
  rw [idxOf_zero, cstr_append_zero] at terminated
  refine (holds_isValidUtf8At terminated enough).mono fun stop decided => ?_
  rw [decided.1, ← isValidUtf8_cstr, cstr_append_zero, isValidUtf8_cstr]

/-! ## A character that the terminator cuts off -/

theorem not_continuation_of_numBytes {lead : UInt8} {num : Nat}
    (announced : numBytes lead = some num) : lead &&& 0xC0 ≠ 0x80 := by
  have known : ∀ b : UInt8, numBytes b ≠ none → b &&& 0xC0 ≠ 0x80 := by
    apply forall_byte
    decide +kernel
  exact known lead (by rw [announced]; exact Option.some_ne_none num)

section CutOff

variable {memory : Bytes} {n : Nat} (terminated : Terminated memory n)
include terminated

theorem scanUtf8_short : ∀ (pending bytes : Nat), bytes ≤ n → n < bytes + pending →
    scanUtf8 pending (memory.drop bytes) = false := by
  intro pending
  induction pending with
  | zero =>
      intro bytes inside short
      omega
  | succ pending ih =>
      intro bytes inside short
      obtain ⟨byte, there⟩ := terminated.byte_at inside
      rw [drop_at there, scanUtf8]
      split
      · rfl
      · rename_i continues
        have nonzero := continuation_ne_zero (not_not.mp continues)
        have next := terminated.next_le inside there nonzero
        exact ih (bytes + 1) next (by omega)

/-- Whether it is reached as a lead byte or in place of a continuation byte, a lead
byte with too few bytes behind it makes the scan fail, or an earlier byte does. -/
theorem scanUtf8_cutOff {lead : UInt8} {p num : Nat} (there : memory[p]? = some lead)
    (announced : numBytes lead = some num) (inside : p < n) (short : n < p + num) :
    ∀ (distance bytes pending : Nat), bytes + distance = p →
      scanUtf8 pending (memory.drop bytes) = false := by
  intro distance
  induction distance with
  | zero =>
      intro bytes pending here
      obtain rfl : bytes = p := by omega
      rw [drop_at there]
      cases pending with
      | zero =>
          rw [scanUtf8, if_neg (terminated.ne_zero inside there), announced]
          exact scanUtf8_short terminated (num - 1) (bytes + 1) inside (by omega)
      | succ pending =>
          rw [scanUtf8, if_pos (not_continuation_of_numBytes announced)]
  | succ distance ih =>
      intro bytes pending here
      have early : bytes < n := by omega
      obtain ⟨byte, atByte⟩ := terminated.byte_at (Nat.le_of_lt early)
      rw [drop_at atByte]
      cases pending with
      | zero =>
          rw [scanUtf8, if_neg (terminated.ne_zero early atByte)]
          cases numBytes byte with
          | none => rfl
          | some num => exact ih (bytes + 1) (num - 1) (by omega)
      | succ pending =>
          rw [scanUtf8]
          split
          · rfl
          · exact ih (bytes + 1) pending (by omega)

end CutOff

theorem isValidUtf8At_inside (memory : Bytes) (n : Nat) (contains : 0 ∈ memory)
    (first : memory.idxOf 0 = n) :
    ∃ (reads : List Nat) (stop : Stop),
      (∀ fuel > n, isValidUtf8At fuel (some 0) memory = ⟨reads, .ok stop⟩) ∧
      (∀ i ∈ reads, i ≤ n) ∧
      (stop.returned = true → stop.bytes = some n) ∧
      ∀ (p num : Nat) (lead : UInt8), memory[p]? = some lead → numBytes lead = some num →
        p < n → n < p + num → stop.returned = false := by
  have terminated : Terminated memory n := first ▸ terminated_idxOf contains
  have holds := holds_isValidUtf8At terminated (Nat.lt_succ_self n)
  obtain ⟨stop, returned, verdict, atEnd⟩ := holds.returns
  refine ⟨(isValidUtf8At (n + 1) (some 0) memory).reads, stop, ?_, holds.inside, atEnd, ?_⟩
  · intro fuel enough
    obtain ⟨more, rfl⟩ := Nat.exists_eq_add_of_le enough
    have run : isValidUtf8At (n + 1 + more) (some 0) memory =
        isValidUtf8At (n + 1) (some 0) memory := loop_more_fuel more (n + 1) 0 returned
    rw [run, ← returned]
  · intro p num lead there announced inside short
    rw [verdict]
    exact scanUtf8_cutOff terminated there announced inside short p 0 0 (Nat.zero_add p)

theorem isValidUtf8At_inside_euro :
    ∃ (reads : List Nat) (stop : Stop),
      (∀ fuel > 3, isValidUtf8At fuel (some 0) [0x61, 0xE2, 0x82, 0x00, 0xAC] =
        ⟨reads, .ok stop⟩) ∧
      (∀ i ∈ reads, i ≤ 3) ∧ stop.returned = false := by
  obtain ⟨reads, stop, run, inside, _, cutOff⟩ :=
    isValidUtf8At_inside [0x61, 0xE2, 0x82, 0x00, 0xAC] 3 (by decide) (by decide)
  exact ⟨reads, stop, run, inside, cutOff 1 3 0xE2 rfl (by decide) (by decide) (by decide)⟩

/-- A lead byte near the terminator is accepted when its character is complete, as
in `é`. -/
theorem not_rejected_eAcute :
    ¬ ∀ (memory : Bytes) (p num fuel : Nat) (lead : UInt8), 0 ∈ memory →
      memory[p]? = some lead → numBytes lead = some num → 1 < num →
      p < memory.idxOf 0 → memory.idxOf 0 ≤ p + 3 → memory.idxOf 0 < fuel →
      ∃ stop, (isValidUtf8At fuel (some 0) memory).result = .ok stop ∧ stop.returned = false := by
  intro rejects
  obtain ⟨stop, returned, rejected⟩ := rejects [0xC3, 0xA9, 0x00] 0 2 3 0xC3 (by decide) rfl
    (by decide) (by decide) (by decide) (by decide) (by decide)
  have run : (isValidUtf8At 3 (some 0) [0xC3, 0xA9, 0x00]).result = .ok ⟨true, some 2⟩ := by
    rfl
  rw [run] at returned
  cases returned
  cases rejected

end MineGPT.Native
