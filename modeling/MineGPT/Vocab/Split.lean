import Mathlib.Algebra.GroupWithZero.Nat
import MineGPT.Vocab.Unicode

/-!
# Splitting a text into words

The two loops of `unicode.cpp` that stand for the regular expressions of GPT-2
and Llama 3.  They move a position over a part of the codepoints and put down
where each word ends.  A word's end is asserted to be between the last one and
the end of the part.
-/

set_option autoImplicit false

namespace MineGPT.Vocab

open MineGPT.Lib.ByteString

abbrev CptFlags := UInt16

def CptFlags.isNumber (flags : CptFlags) : Bool := flags &&& 0x0002 != 0
def CptFlags.isLetter (flags : CptFlags) : Bool := flags &&& 0x0004 != 0
def CptFlags.isWhitespace (flags : CptFlags) : Bool := flags &&& 0x0100 != 0
def CptFlags.categoryFlag (flags : CptFlags) : CptFlags := flags &&& 0x00ff

/-- What the generated tables say of a codepoint. -/
structure UnicodeTables where
  flagsFromCpt : Nat → CptFlags
  tolower : Nat → Nat

/-- A part of the codepoints, from `offset_ini` to `offset_end`. -/
structure Part where
  cpts : List Nat
  ini : Nat
  stop : Nat

def outOfRange : Nat := 0xffffffff

def Part.getCpt (part : Part) (pos : Nat) : Nat :=
  if part.ini ≤ pos ∧ pos < part.stop then part.cpts.getD pos 0 else outOfRange

def Part.getFlags (part : Part) (tables : UnicodeTables) (pos : Nat) : CptFlags :=
  if part.ini ≤ pos ∧ pos < part.stop then tables.flagsFromCpt (part.cpts.getD pos 0) else 0

structure SplitState where
  pos : Nat
  prevEnd : Nat
  bpeOffsets : List Nat

/-- `_add_token`, with the length it returns; `none` is its assertion failing. -/
def addToken (part : Part) (s : SplitState) (stop : Nat) : Option (SplitState × Nat) :=
  if s.prevEnd ≤ stop ∧ stop ≤ part.stop then
    let len := stop - s.prevEnd
    some ({ s with
      prevEnd := stop
      bpeOffsets := if 0 < len then s.bpeOffsets ++ [len] else s.bpeOffsets }, len)
  else none

/-- `pos = stop; _add_token(pos)` -/
def moveTo (part : Part) (s : SplitState) (stop : Nat) : Option SplitState :=
  (addToken part { s with pos := stop } stop).map Prod.fst

def scan (part : Part) (tables : UnicodeTables) (wanted : CptFlags → Bool) : Nat → Nat → Nat
  | 0, pos => pos
  | fuel + 1, pos =>
    if wanted (part.getFlags tables pos) then scan part tables wanted fuel (pos + 1) else pos

def scanFrom (part : Part) (tables : UnicodeTables) (wanted : CptFlags → Bool) (pos : Nat) : Nat :=
  scan part tables wanted (part.stop + 1 - pos) pos

/-- The length of one of `'s|'t|'re|'ve|'m|'ll|'d` at a position. -/
def contraction (part : Part) (lower : Nat → Nat) (pos : Nat) : Option Nat :=
  if part.getCpt pos = '\''.toNat ∧ pos + 1 < part.stop then
    let next := lower (part.getCpt (pos + 1))
    if next = 's'.toNat ∨ next = 't'.toNat ∨ next = 'm'.toNat ∨ next = 'd'.toNat then some 2
    else if pos + 2 < part.stop then
      let nextNext := lower (part.getCpt (pos + 2))
      if next = 'r'.toNat ∧ nextNext = 'e'.toNat ∨ next = 'v'.toNat ∧ nextNext = 'e'.toNat ∨
          next = 'l'.toNat ∧ nextNext = 'l'.toNat then some 3
      else none
    else none
  else none

/-- `[^\s\p{L}\p{N}]`, for a codepoint that has any flags. -/
def isOther (flags : CptFlags) : Bool :=
  !(flags.isWhitespace || flags.isLetter || flags.isNumber) && flags != 0

def isNewline (cpt : Nat) : Bool := cpt = '\r'.toNat || cpt = '\n'.toNat

section Steps

variable (part : Part) (tables : UnicodeTables)

/-- The branches for blanks and for what matches nothing. -/
def blanksStep (s : SplitState) (numWhitespaces : Nat) : Option SplitState :=
  if 1 < numWhitespaces ∧ part.getCpt (s.pos + numWhitespaces) ≠ outOfRange then
    moveTo part s (s.pos + (numWhitespaces - 1))
  else if 0 < numWhitespaces then moveTo part s (s.pos + numWhitespaces)
  else moveTo part s (s.pos + 1)

def contractionStep (s : SplitState) (length : Nat) : Option SplitState :=
  (addToken part s (s.pos + length)).map fun added => { added.1 with pos := s.pos + added.2 }

/-- One round of `unicode_regex_split_custom_gpt2`. -/
def gpt2Step (s : SplitState) : Option SplitState :=
  match contraction part id s.pos with
  | some length => contractionStep part s length
  | none =>
    let shift := if part.getCpt s.pos = ' '.toNat then 1 else 0
    let flags2 := part.getFlags tables (s.pos + shift)
    if flags2.isLetter then
      moveTo part s (scanFrom part tables CptFlags.isLetter (s.pos + shift))
    else if flags2.isNumber then
      moveTo part s (scanFrom part tables CptFlags.isNumber (s.pos + shift))
    else if isOther flags2 then
      moveTo part s (scanFrom part tables isOther (s.pos + shift))
    else blanksStep part s (scanFrom part tables CptFlags.isWhitespace s.pos - s.pos)

/-- `\p{N}{1,3}`: a word is put down after every third digit, the rest behind the loop. -/
def numberLoop : Nat → SplitState → Nat → Option SplitState
  | 0, _, _ => none
  | fuel + 1, s, ini =>
    if (part.getFlags tables s.pos).isNumber then
      let s := { s with pos := s.pos + 1 }
      if 3 ≤ s.pos - ini then
        match addToken part s s.pos with
        | none => none
        | some (s, _) => numberLoop fuel s s.pos
      else numberLoop fuel s ini
    else moveTo part s s.pos

def scanNewlines : Nat → Nat → Nat
  | 0, pos => pos
  | fuel + 1, pos => if isNewline (part.getCpt pos) then scanNewlines fuel (pos + 1) else pos

/-- `last_end_r_or_n`: behind the last line end of a run of blanks, 0 if there is none. -/
def lastEndNewline (pos numWhitespaces : Nat) : Nat :=
  match ((List.range numWhitespaces).filter fun k => isNewline (part.getCpt (pos + k))).getLast? with
  | none => 0
  | some k => pos + k + 1

/-- One round of `unicode_regex_split_custom_llama3`. -/
def llama3Step (s : SplitState) : Option SplitState :=
  match contraction part tables.tolower s.pos with
  | some length => contractionStep part s length
  | none =>
    let cpt := part.getCpt s.pos
    let flags := part.getFlags tables s.pos
    if !(isNewline cpt || flags.isNumber) &&
        (flags.isLetter || (part.getFlags tables (s.pos + 1)).isLetter) then
      moveTo part s (scanFrom part tables CptFlags.isLetter (s.pos + 1))
    else if flags.isNumber then numberLoop part tables (part.stop + 1 - s.pos) s s.pos
    else
      let shift := if cpt = ' '.toNat then 1 else 0
      let flags2 := part.getFlags tables (s.pos + shift)
      if !(flags2.isWhitespace || flags2.isLetter || flags2.isNumber) && flags != 0 then
        let pos := scanFrom part tables isOther (s.pos + shift)
        moveTo part s (scanNewlines part (part.stop + 1 - pos) pos)
      else
        let numWhitespaces := scanFrom part tables CptFlags.isWhitespace s.pos - s.pos
        if 0 < lastEndNewline part s.pos numWhitespaces then
          moveTo part s (lastEndNewline part s.pos numWhitespaces)
        else blanksStep part s numWhitespaces

/-- `for (pos = offset_ini; pos < offset_end;)` -/
def partLoop (step : SplitState → Option SplitState) : Nat → SplitState → Option SplitState
  | 0, _ => none
  | fuel + 1, s =>
    if s.pos < part.stop then
      match step s with
      | none => none
      | some s => partLoop step fuel s
    else some s

end Steps

/-- The loop over the words that an earlier expression has made. -/
def splitParts (cpts : List Nat) (step : Part → SplitState → Option SplitState) :
    Nat → List Nat → List Nat → Option (List Nat)
  | _, [], bpeOffsets => some bpeOffsets
  | start, offset :: rest, bpeOffsets =>
    let part := { cpts := cpts, ini := start, stop := start + offset }
    match partLoop part (step part) (offset + 1)
        { pos := start, prevEnd := start, bpeOffsets := bpeOffsets } with
    | none => none
    | some s => splitParts cpts step (start + offset) rest s.bpeOffsets

def splitCustomGpt2 (tables : UnicodeTables) (cpts offsets : List Nat) : Option (List Nat) :=
  splitParts cpts (fun part => gpt2Step part tables) 0 offsets []

def splitCustomLlama3 (tables : UnicodeTables) (cpts offsets : List Nat) : Option (List Nat) :=
  splitParts cpts (fun part => llama3Step part tables) 0 offsets []

/-! ## What a round does -/

/-- The position moves on inside the part, and the words put down fill what was passed. -/
structure Advances (part : Part) (s s' : SplitState) : Prop where
  ended : s'.prevEnd = s'.pos
  onward : s.pos < s'.pos
  inside : s'.pos ≤ part.stop
  words : ∃ added, s'.bpeOffsets = s.bpeOffsets ++ added ∧ (∀ n ∈ added, 0 < n) ∧
    added.sum = s'.pos - s.pos

section Spec

variable {part : Part} {tables : UnicodeTables} {s : SplitState}

theorem addToken_spec {stop : Nat} (ended : s.prevEnd = s.pos) (onward : s.pos < stop)
    (inside : stop ≤ part.stop) :
    addToken part s stop = some ({ s with
      prevEnd := stop, bpeOffsets := s.bpeOffsets ++ [stop - s.pos] }, stop - s.pos) := by
  have before : s.pos ≤ stop ∧ stop ≤ part.stop := ⟨by omega, inside⟩
  have positive : 0 < stop - s.pos := by omega
  simp only [addToken, ended, if_pos before, if_pos positive]

theorem moveTo_advances {stop : Nat} (ended : s.prevEnd = s.pos) (onward : s.pos < stop)
    (inside : stop ≤ part.stop) : ∃ s', moveTo part s stop = some s' ∧ Advances part s s' := by
  have before : s.pos ≤ stop ∧ stop ≤ part.stop := ⟨by omega, inside⟩
  have positive : 0 < stop - s.pos := by omega
  refine ⟨{ pos := stop, prevEnd := stop, bpeOffsets := s.bpeOffsets ++ [stop - s.pos] }, ?_,
    rfl, onward, inside, [stop - s.pos], rfl, ?_, ?_⟩
  · simp only [moveTo, addToken, ended, if_pos before, if_pos positive, Option.map_some]
  · intro n member
    rw [List.mem_singleton.mp member]
    exact positive
  · simp

theorem contractionStep_advances {length : Nat} (ended : s.prevEnd = s.pos) (positive : 0 < length)
    (inside : s.pos + length ≤ part.stop) :
    ∃ s', contractionStep part s length = some s' ∧ Advances part s s' := by
  have added := @addToken_spec part s _ ended (Nat.lt_add_of_pos_right positive) inside
  rw [Nat.add_sub_cancel_left] at added
  refine ⟨⟨s.pos + length, s.pos + length, s.bpeOffsets ++ [length]⟩, ?_, rfl,
    Nat.lt_add_of_pos_right positive, inside, [length], rfl, ?_, ?_⟩
  · simp only [contractionStep, added, Option.map_some]
  · intro n member
    rw [List.mem_singleton.mp member]
    exact positive
  · simp

theorem contraction_inside {lower : Nat → Nat} {pos length : Nat}
    (found : contraction part lower pos = some length) : 0 < length ∧ pos + length ≤ part.stop := by
  unfold contraction at found
  dsimp only at found
  split_ifs at found
  · cases found
    omega
  · cases found
    omega

theorem getFlags_outside {pos : Nat} (outside : part.stop ≤ pos) :
    part.getFlags tables pos = 0 := by
  rw [Part.getFlags, if_neg (by omega)]

theorem scan_spec (part : Part) (tables : UnicodeTables) {wanted : CptFlags → Bool} (undefined : wanted 0 = false) : ∀ (fuel pos : Nat),
    pos ≤ scan part tables wanted fuel pos ∧
      (pos ≤ part.stop → scan part tables wanted fuel pos ≤ part.stop) := by
  intro fuel
  induction fuel with
  | zero => intro pos; exact ⟨Nat.le_refl _, id⟩
  | succ fuel ih =>
      intro pos
      rw [scan]
      split_ifs with here
      · obtain ⟨onward, within⟩ := ih (pos + 1)
        refine ⟨by omega, fun _ => within ?_⟩
        by_contra outside
        rw [getFlags_outside (by omega), undefined] at here
        cases here
      · exact ⟨Nat.le_refl _, id⟩

theorem scanFrom_spec (part : Part) (tables : UnicodeTables) {wanted : CptFlags → Bool} (undefined : wanted 0 = false) {pos : Nat}
    (inside : pos ≤ part.stop) :
    pos ≤ scanFrom part tables wanted pos ∧ scanFrom part tables wanted pos ≤ part.stop ∧
      (wanted (part.getFlags tables pos) = true → pos < scanFrom part tables wanted pos) := by
  obtain ⟨onward, within⟩ := scan_spec part tables undefined
    (part.stop + 1 - pos) pos
  refine ⟨onward, within inside, fun here => ?_⟩
  obtain ⟨fuel, enough⟩ : ∃ fuel, part.stop + 1 - pos = fuel + 1 := ⟨part.stop - pos, by omega⟩
  rw [scanFrom, enough, scan, if_pos here]
  exact (scan_spec part tables undefined fuel (pos + 1)).1

theorem getFlags_inside {wanted : CptFlags → Bool} (undefined : wanted 0 = false) {pos : Nat}
    (here : wanted (part.getFlags tables pos) = true) : pos < part.stop := by
  by_contra outside
  rw [getFlags_outside (by omega), undefined] at here
  cases here

theorem scanNewlines_spec (part : Part) : ∀ (fuel pos : Nat), pos ≤ scanNewlines part fuel pos ∧
    (pos ≤ part.stop → scanNewlines part fuel pos ≤ part.stop) := by
  intro fuel
  induction fuel with
  | zero => intro pos; exact ⟨Nat.le_refl _, id⟩
  | succ fuel ih =>
      intro pos
      rw [scanNewlines]
      split_ifs with here
      · obtain ⟨onward, within⟩ := ih (pos + 1)
        refine ⟨by omega, fun _ => within ?_⟩
        by_contra outside
        rw [Part.getCpt, if_neg (by omega)] at here
        exact absurd here (by decide)
      · exact ⟨Nat.le_refl _, id⟩

theorem blanksStep_advances (ended : s.prevEnd = s.pos) (inside : s.pos < part.stop)
    {numWhitespaces : Nat} (within : s.pos + numWhitespaces ≤ part.stop) :
    ∃ s', blanksStep part s numWhitespaces = some s' ∧ Advances part s s' := by
  unfold blanksStep
  split_ifs with many
  · exact moveTo_advances ended (by omega) (by omega)
  · exact moveTo_advances ended (by omega) (by omega)
  · exact moveTo_advances ended (by omega) (by omega)

theorem gpt2Step_advances (ended : s.prevEnd = s.pos) (inside : s.pos < part.stop) :
    ∃ s', gpt2Step part tables s = some s' ∧ Advances part s s' := by
  unfold gpt2Step
  cases short : contraction part id s.pos with
  | some length =>
      obtain ⟨positive, within⟩ := contraction_inside short
      exact contractionStep_advances ended positive within
  | none =>
      -- a run of one kind, after a blank or not
      have run : ∀ (wanted : CptFlags → Bool) (pos : Nat), wanted 0 = false → s.pos ≤ pos →
          wanted (part.getFlags tables pos) = true →
          ∃ s', moveTo part s (scanFrom part tables wanted pos) = some s' ∧
            Advances part s s' := by
        intro wanted pos undefined ahead here
        have within := getFlags_inside undefined here
        obtain ⟨_, bound, onward⟩ := scanFrom_spec part tables undefined (Nat.le_of_lt within)
        have further := onward here
        exact moveTo_advances ended (by omega) bound
      simp only
      generalize (if part.getCpt s.pos = ' '.toNat then 1 else 0) = shift
      split_ifs with letter number other
      · exact run CptFlags.isLetter _ (by decide) (Nat.le_add_right _ _) letter
      · exact run CptFlags.isNumber _ (by decide) (Nat.le_add_right _ _) number
      · exact run isOther _ (by decide) (Nat.le_add_right _ _) other
      · have blank : CptFlags.isWhitespace 0 = false := by decide
        obtain ⟨ahead, bound, _⟩ := scanFrom_spec part tables blank (Nat.le_of_lt inside)
        exact blanksStep_advances ended inside (by omega)

theorem lastEndNewline_spec {pos numWhitespaces : Nat}
    (found : 0 < lastEndNewline part pos numWhitespaces) :
    pos < lastEndNewline part pos numWhitespaces ∧
      lastEndNewline part pos numWhitespaces ≤ pos + numWhitespaces := by
  unfold lastEndNewline at *
  cases last : ((List.range numWhitespaces).filter fun k =>
      isNewline (part.getCpt (pos + k))).getLast? with
  | none =>
      rw [last] at found
      cases found
  | some k =>
      have member := List.mem_of_getLast? last
      have small := List.mem_range.mp (List.mem_filter.mp member).1
      simp only
      omega

/-- What the loop over digits has done, and what is not put down yet. -/
structure Counting (part : Part) (s t : SplitState) : Prop where
  ended : s.pos ≤ t.prevEnd
  onward : t.prevEnd ≤ t.pos
  inside : t.pos ≤ part.stop
  moved : s.pos < t.pos
  words : ∃ added, t.bpeOffsets = s.bpeOffsets ++ added ∧ (∀ n ∈ added, 0 < n) ∧
    added.sum = t.prevEnd - s.pos

theorem Counting.finish {t : SplitState} (counting : Counting part s t) :
    ∃ s', moveTo part t t.pos = some s' ∧ Advances part s s' := by
  obtain ⟨added, appended, positive, total⟩ := counting.words
  have onward := counting.onward
  have started := counting.ended
  have allowed : t.prevEnd ≤ t.pos ∧ t.pos ≤ part.stop := ⟨onward, counting.inside⟩
  simp only [moveTo, addToken, if_pos allowed, Option.map_some, Option.some.injEq, exists_eq_left']
  by_cases more : 0 < t.pos - t.prevEnd
  · refine ⟨rfl, counting.moved, counting.inside, added ++ [t.pos - t.prevEnd], ?_, ?_, ?_⟩
    · simp only [if_pos more, appended, List.append_assoc]
    · intro n member
      rcases List.mem_append.mp member with old | new
      · exact positive n old
      · rw [List.mem_singleton.mp new]
        exact more
    · rw [List.sum_append, total, List.sum_singleton]
      simp only
      omega
  · refine ⟨rfl, counting.moved, counting.inside, added, ?_, positive, ?_⟩
    · simp only [if_neg more, appended]
    · have caught : t.prevEnd = t.pos := by omega
      rw [total, caught]

theorem numberLoop_advances (tables : UnicodeTables) : ∀ (fuel : Nat) (t : SplitState), part.stop - t.pos < fuel →
    Counting part s t → ∃ s', numberLoop part tables fuel t t.prevEnd = some s' ∧
      Advances part s s' := by
  have undefined : CptFlags.isNumber 0 = false := by decide
  intro fuel
  induction fuel with
  | zero => intro t enough; omega
  | succ fuel ih =>
      intro t enough counting
      obtain ⟨pos, prevEnd, bpeOffsets⟩ := t
      obtain ⟨started, onward, within, moved, added, appended, positive, total⟩ := counting
      simp only at enough started onward within moved appended total
      rw [numberLoop]
      by_cases digit : (part.getFlags tables pos).isNumber = true
      · have here := getFlags_inside undefined digit
        have allowed : prevEnd ≤ pos + 1 ∧ pos + 1 ≤ part.stop := by omega
        have more : 0 < pos + 1 - prevEnd := by omega
        simp only [if_pos digit]
        by_cases third : 3 ≤ pos + 1 - prevEnd
        · simp only [if_pos third, addToken, if_pos allowed, if_pos more]
          refine ih ⟨pos + 1, pos + 1, bpeOffsets ++ [pos + 1 - prevEnd]⟩ (by simp only; omega)
            ⟨by simp only; omega, Nat.le_refl _, allowed.2, by simp only; omega,
              added ++ [pos + 1 - prevEnd], ?_, ?_, ?_⟩
          · simp only [appended, List.append_assoc]
          · intro n member
            rcases List.mem_append.mp member with old | new
            · exact positive n old
            · rw [List.mem_singleton.mp new]
              exact more
          · rw [List.sum_append, total, List.sum_singleton]
            simp only
            omega
        · simp only [if_neg third]
          exact ih ⟨pos + 1, prevEnd, bpeOffsets⟩ (by simp only; omega) ⟨started,
            by simp only; omega, allowed.2, by simp only; omega, added, appended, positive, total⟩
      · simp only [if_neg digit]
        exact Counting.finish ⟨started, onward, within, moved, added, appended, positive, total⟩

theorem numberLoop_start (ended : s.prevEnd = s.pos)
    (digit : (part.getFlags tables s.pos).isNumber = true) :
    ∃ s', numberLoop part tables (part.stop + 1 - s.pos) s s.pos = some s' ∧
      Advances part s s' := by
  have undefined : CptFlags.isNumber 0 = false := by decide
  have inside := getFlags_inside undefined digit
  obtain ⟨fuel, enough⟩ : ∃ fuel, part.stop + 1 - s.pos = fuel + 1 := ⟨part.stop - s.pos, by omega⟩
  have second : ¬ 3 ≤ s.pos + 1 - s.pos := by omega
  rw [enough, numberLoop]
  simp only [if_pos digit, if_neg second]
  have counting : Counting part s { s with pos := s.pos + 1 } :=
    ⟨Nat.le_of_eq ended.symm, ended ▸ Nat.le_succ _, inside, Nat.lt_succ_self _, [], by simp,
      by simp, by simp [ended]⟩
  have loop := numberLoop_advances tables fuel { s with pos := s.pos + 1 }
    (by simp only; omega) counting
  simp only [ended] at loop ⊢
  exact loop

theorem llama3Step_advances (ended : s.prevEnd = s.pos) (inside : s.pos < part.stop) :
    ∃ s', llama3Step part tables s = some s' ∧ Advances part s s' := by
  have blank : CptFlags.isWhitespace 0 = false := by decide
  unfold llama3Step
  cases short : contraction part tables.tolower s.pos with
  | some length =>
      obtain ⟨positive, within⟩ := contraction_inside short
      exact contractionStep_advances ended positive within
  | none =>
      simp only
      generalize shifted : (if part.getCpt s.pos = ' '.toNat then 1 else 0) = shift
      have small : shift ≤ 1 := by
        rw [← shifted]
        split_ifs <;> omega
      split_ifs with letters number other newline
      · have undefined : CptFlags.isLetter 0 = false := by decide
        have next : s.pos + 1 ≤ part.stop := inside
        obtain ⟨ahead, bound, _⟩ := scanFrom_spec part tables undefined next
        exact moveTo_advances ended (by omega) bound
      · exact numberLoop_start ended number
      · have undefined : isOther 0 = false := by decide
        have within : s.pos + shift ≤ part.stop := by omega
        obtain ⟨ahead, bound, further⟩ := scanFrom_spec part tables undefined within
        obtain ⟨ends, inPart⟩ := scanNewlines_spec part (part.stop + 1 -
          scanFrom part tables isOther (s.pos + shift)) (scanFrom part tables isOther (s.pos + shift))
        have onward : s.pos < scanFrom part tables isOther (s.pos + shift) := by
          rcases Nat.eq_zero_or_pos shift with none | one
          · rw [none, Nat.add_zero] at other further ⊢
            exact further (by rw [isOther]; exact other)
          · omega
        exact moveTo_advances ended (by omega) (inPart bound)
      · obtain ⟨onward, last⟩ := lastEndNewline_spec newline
        have bound := (scanFrom_spec part tables blank (Nat.le_of_lt inside)).2.1
        exact moveTo_advances ended onward (by omega)
      · obtain ⟨ahead, bound, _⟩ := scanFrom_spec part tables blank (Nat.le_of_lt inside)
        exact blanksStep_advances ended inside (by omega)

end Spec

/-! ## The loops -/

theorem partLoop_runs {part : Part} {step : SplitState → Option SplitState}
    (advances : ∀ s, s.prevEnd = s.pos → s.pos < part.stop →
      ∃ s', step s = some s' ∧ Advances part s s') : ∀ (fuel : Nat) (s : SplitState),
    s.prevEnd = s.pos → s.pos ≤ part.stop → part.stop - s.pos < fuel →
    ∃ s' added, partLoop part step fuel s = some s' ∧ s'.bpeOffsets = s.bpeOffsets ++ added ∧
      (∀ n ∈ added, 0 < n) ∧ added.sum = part.stop - s.pos := by
  intro fuel
  induction fuel with
  | zero => intro s _ _ enough; omega
  | succ fuel ih =>
      intro s ended inside enough
      rw [partLoop]
      by_cases more : s.pos < part.stop
      · obtain ⟨next, run, ended', onward, inside', added, appended, positive, total⟩ :=
          advances s ended more
        obtain ⟨last, rest, finish, appended', positive', total'⟩ :=
          ih next ended' inside' (by omega)
        refine ⟨last, added ++ rest, ?_, ?_, ?_, ?_⟩
        · simp only [if_pos more, run, finish]
        · rw [appended', appended, List.append_assoc]
        · intro n member
          rcases List.mem_append.mp member with first | later
          · exact positive n first
          · exact positive' n later
        · rw [List.sum_append, total, total']
          omega
      · refine ⟨s, [], if_neg more, by simp, by simp, ?_⟩
        rw [List.sum_nil]
        omega

/-- Words that fill each of the parts they are in. -/
def Fills (offsets words : List Nat) : Prop :=
  ∃ groups : List (List Nat), words = groups.flatten ∧ groups.map List.sum = offsets ∧
    ∀ group ∈ groups, ∀ n ∈ group, 0 < n

theorem splitParts_fills {cpts : List Nat} {step : Part → SplitState → Option SplitState}
    (advances : ∀ part s, s.prevEnd = s.pos → s.pos < part.stop →
      ∃ s', step part s = some s' ∧ Advances part s s') :
    ∀ (offsets : List Nat) (start : Nat) (bpeOffsets : List Nat),
    ∃ words, splitParts cpts step start offsets bpeOffsets = some (bpeOffsets ++ words) ∧
      Fills offsets words := by
  intro offsets
  induction offsets with
  | nil =>
      intro start bpeOffsets
      exact ⟨[], by rw [splitParts, List.append_nil], [], rfl, rfl, by simp⟩
  | cons offset rest ih =>
      intro start bpeOffsets
      obtain ⟨s, added, run, appended, positive, total⟩ := partLoop_runs
        (advances ⟨cpts, start, start + offset⟩) (offset + 1) ⟨start, start, bpeOffsets⟩ rfl
        (Nat.le_add_right _ _) (by simp only; omega)
      obtain ⟨words, finish, groups, rfl, sums, allPositive⟩ := ih (start + offset) s.bpeOffsets
      refine ⟨added ++ groups.flatten, ?_, added :: groups, rfl, ?_, ?_⟩
      · rw [splitParts]
        simp only [run]
        rw [finish, appended, List.append_assoc]
      · rw [List.map_cons, sums, total]
        simp only [Nat.add_sub_cancel_left]
      · intro group member
        rcases List.mem_cons.mp member with rfl | member
        · exact positive
        · exact allPositive group member

theorem splitCustomGpt2_fills (tables : UnicodeTables) (cpts offsets : List Nat) :
    ∃ words, splitCustomGpt2 tables cpts offsets = some words ∧ Fills offsets words :=
  splitParts_fills (fun _ _ ended inside => gpt2Step_advances ended inside) offsets 0 []

theorem splitCustomLlama3_fills (tables : UnicodeTables) (cpts offsets : List Nat) :
    ∃ words, splitCustomLlama3 tables cpts offsets = some words ∧ Fills offsets words :=
  splitParts_fills (fun _ _ ended inside => llama3Step_advances ended inside) offsets 0 []

end MineGPT.Vocab
