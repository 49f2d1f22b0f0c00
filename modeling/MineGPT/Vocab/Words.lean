import MineGPT.Lib.TextSearch
import MineGPT.Vocab.Split

/-!
# The words of a text

`unicode_regex_split`: every expression splits the words of the one before it,
by one of the loops or by `std::regex`; the words are then written in the byte
alphabet.
-/

set_option autoImplicit false

namespace MineGPT.Vocab

open String (utf8EncodeChar)
open MineGPT.Lib.ByteString MineGPT.Lib.TextSearch MineGPT.Lib.Utf8

/-! ## Splitting at the matches of an expression -/

/-- The position and the length of a match, counted from the start of the part. -/
structure RegexMatch where
  position : Nat
  length : Nat

def stlLoop (offset : Nat) : Nat → List RegexMatch → List Nat
  | startIdx, [] => if startIdx < offset then [offset - startIdx] else []
  | startIdx, found :: rest =>
    (if startIdx < found.position then [found.position - startIdx] else []) ++
      found.length :: stlLoop offset (found.position + found.length) rest

/-- `unicode_regex_split_stl`; the iterator gives the matches in a part of the text. -/
def splitStl (iterator : Nat → Nat → List RegexMatch) : Nat → List Nat → List Nat
  | _, [] => []
  | start, offset :: rest =>
    stlLoop offset 0 (iterator start offset) ++ splitStl iterator (start + offset) rest

/-- What `std::regex_iterator` promises: matches inside the part, one behind the other. -/
def InOrder (offset : Nat) : Nat → List RegexMatch → Prop
  | startIdx, [] => startIdx ≤ offset
  | startIdx, found :: rest =>
    startIdx ≤ found.position ∧ InOrder offset (found.position + found.length) rest

theorem InOrder.le {offset : Nat} : ∀ {matched : List RegexMatch} {startIdx : Nat},
    InOrder offset startIdx matched → startIdx ≤ offset := by
  intro matched
  induction matched with
  | nil => intro startIdx inOrder; exact inOrder
  | cons found rest ih =>
      intro startIdx inOrder
      have later := ih inOrder.2
      have ahead := inOrder.1
      omega

theorem stlLoop_sum {offset : Nat} : ∀ (matched : List RegexMatch) (startIdx : Nat),
    InOrder offset startIdx matched → (stlLoop offset startIdx matched).sum = offset - startIdx := by
  intro matched
  induction matched with
  | nil =>
      intro startIdx _
      rw [stlLoop]
      split_ifs
      · simp
      · rw [List.sum_nil]
        omega
  | cons found rest ih =>
      intro startIdx inOrder
      obtain ⟨ahead, later⟩ := inOrder
      have within := later.le
      rw [stlLoop, List.sum_append, List.sum_cons, ih _ later]
      split_ifs
      · rw [List.sum_singleton]
        omega
      · rw [List.sum_nil]
        omega

theorem splitStl_sum {iterator : Nat → Nat → List RegexMatch}
    (inOrder : ∀ start offset, InOrder offset 0 (iterator start offset)) :
    ∀ (offsets : List Nat) (start : Nat), (splitStl iterator start offsets).sum = offsets.sum := by
  intro offsets
  induction offsets with
  | nil => intro start; rfl
  | cons offset rest ih =>
      intro start
      rw [splitStl, List.sum_append, stlLoop_sum _ _ (inOrder start offset), ih, List.sum_cons,
        Nat.sub_zero]

/-! ## The expressions of the custom loops -/

def gpt2Expr : Bytes :=
  lit "'s|'t|'re|'ve|'m|'ll|'d" ++ lit "| ?\\p\x7bL\x7d+| ?\\p\x7bN\x7d+" ++
    lit "| ?[^\\s\\p\x7bL\x7d\\p\x7bN\x7d]+|\\s+(?!\\S)"

/-- What the two spellings for Llama 3 have in common. -/
def llama3Tail : Bytes :=
  lit "|[^\\r\\n\\p\x7bL\x7d\\p\x7bN\x7d]?\\p\x7bL\x7d+|\\p\x7bN\x7d\x7b1,3\x7d" ++
    lit "| ?[^\\s\\p\x7bL\x7d\\p\x7bN\x7d]+[\\r\\n]*|\\s*[\\r\\n]+|\\s+(?!\\S)|\\s+"

def llama3Expr : Bytes := lit "(?i:'s|'t|'re|'ve|'m|'ll|'d)" ++ llama3Tail

def llama3Expr' : Bytes :=
  lit "(?:'[sS]|'[tT]|'[rR][eE]|'[vV][eE]|'[mM]|'[lL][lL]|'[dD])" ++ llama3Tail

/-! ## Categories of codepoints -/

/-- A row of `k_ucat_enum`, `k_ucat_cpt` and `k_ucat_map`. -/
structure UnicodeCategory where
  pattern : Bytes
  flag : CptFlags
  cpt : UInt8
  map : Bytes

def ucategories : List UnicodeCategory :=
  [⟨lit "\\p\x7bN\x7d", 0x0002, 0xd1, lit "0-9"⟩,
    ⟨lit "\\p\x7bL\x7d", 0x0004, 0xd2, lit "A-Za-z"⟩,
    ⟨lit "\\p\x7bP\x7d", 0x0020, 0xd3, lit "!-#%-*,-/:-;?-@\\[-\\]_\\\x7b\\\x7d"⟩,
    ⟨lit "\\p\x7bM\x7d", 0x0010, 0xd4, []⟩,
    ⟨lit "\\p\x7bS\x7d", 0x0040, 0xd5, lit "\\$\\+<->^\x60\\|"⟩]

/-- `use_collapsed` -/
def useCollapsed (expr : Bytes) : Bool :=
  ucategories.any fun category => (findFrom expr category.pattern 0).isSome

/-- A codepoint of the text as one byte. -/
def collapsedCpt (tables : UnicodeTables) (cpt : Nat) : UInt8 :=
  let flags := tables.flagsFromCpt cpt
  if cpt < 128 then UInt8.ofNat cpt
  else if flags.isWhitespace then 0x0b
  else
    match ucategories.find? fun category => category.flag = flags.categoryFlag with
    | some category => category.cpt
    | none => 0xd0

/-- The loop that replaces the categories of an expression; `inside` is set between
brackets, which are not nested. -/
def collapseLoop (expr : Bytes) : Nat → Nat → Bool → Bytes
  | 0, _, _ => []
  | fuel + 1, i, inside =>
    let byte := expr.getD i 0
    let escaped := 0 < i ∧ expr.getD (i - 1) 0 = 0x5c
    if expr.length ≤ i then []
    else if byte = 0x5b ∧ ¬ escaped then 0x5b :: collapseLoop expr fuel (i + 1) true
    else if inside ∧ byte = 0x5d ∧ ¬ escaped then 0x5d :: collapseLoop expr fuel (i + 1) false
    else
      match ucategories.find? fun category => category.pattern = (expr.drop i).take 5 with
      | some category =>
        (if inside then [] else [0x5b]) ++ category.cpt :: category.map ++
          (if inside then [] else [0x5d]) ++ collapseLoop expr fuel (i + 5) inside
      | none => byte :: collapseLoop expr fuel (i + 1) inside

def exprCollapsed (expr : Bytes) : Bytes := collapseLoop expr expr.length 0 false

example : exprCollapsed (lit "[^\\s\\p\x7bN\x7d]|\\p\x7bM\x7d") =
    lit "[^\\s" ++ 0xd1 :: lit "0-9]|[" ++ 0xd4 :: lit "]" := by decide

/-- `wtext`: a blank beyond ASCII is not matched by `\s`. -/
def wideText (tables : UnicodeTables) (cpts : List Nat) : List Nat :=
  cpts.map fun cpt => if 0x7f < cpt ∧ (tables.flagsFromCpt cpt).isWhitespace then 0x0b else cpt

/-- `std::regex` and `std::wregex`: the matches of an expression in a part of a text.  There
is no iterator for an expression that does not compile. -/
structure RegexLib where
  narrow : Bytes → Bytes → Option (Nat → Nat → List RegexMatch)
  wide : Bytes → List Nat → Option (Nat → Nat → List RegexMatch)
  narrowInOrder : ∀ expr text iterator, narrow expr text = some iterator →
    ∀ start offset, InOrder offset 0 (iterator start offset)
  wideInOrder : ∀ expr text iterator, wide expr text = some iterator →
    ∀ start offset, InOrder offset 0 (iterator start offset)

section Iterator

variable (tables : UnicodeTables) (regex : RegexLib) (cpts : List Nat) (expr : Bytes)

/-- The fallback to the library; `none` if an exception leaves it. -/
def regexIterator : Option (Nat → Nat → List RegexMatch) :=
  if useCollapsed expr = true then
    if ∃ cpt ∈ unicodeCptsFromUtf8 expr, 128 ≤ cpt then none
    else regex.narrow (exprCollapsed expr) (cpts.map (collapsedCpt tables))
  else regex.wide expr (wideText tables cpts)

/-- The expression has a category beside a character that is not ASCII, or the library
refuses it. -/
def Refused : Prop :=
  if useCollapsed expr = true then
    (∃ cpt ∈ unicodeCptsFromUtf8 expr, 128 ≤ cpt) ∨
      regex.narrow (exprCollapsed expr) (cpts.map (collapsedCpt tables)) = none
  else regex.wide expr (wideText tables cpts) = none

variable {tables regex cpts expr}

theorem regexIterator_eq_none_iff :
    regexIterator tables regex cpts expr = none ↔ Refused tables regex cpts expr := by
  unfold regexIterator Refused
  split_ifs with category unsupported
  · simp [unsupported]
  · simp [unsupported]
  · rfl

theorem regexIterator_inOrder {iterator : Nat → Nat → List RegexMatch}
    (compiled : regexIterator tables regex cpts expr = some iterator) (start offset : Nat) :
    InOrder offset 0 (iterator start offset) := by
  unfold regexIterator at compiled
  split_ifs at compiled
  · exact regex.narrowInOrder _ _ iterator compiled start offset
  · exact regex.wideInOrder _ _ iterator compiled start offset

end Iterator

/-! ## One expression after the other -/

section Split

variable (tables : UnicodeTables) (regex : RegexLib) (cpts : List Nat)

def splitCustom (expr : Bytes) (offsets : List Nat) : Option (List Nat) :=
  if expr = gpt2Expr then splitCustomGpt2 tables cpts offsets
  else if expr = llama3Expr ∨ expr = llama3Expr' then splitCustomLlama3 tables cpts offsets
  else some []

/-- The loop over the expressions; an empty result of a custom loop is not taken. -/
def splitExprs : List Bytes → List Nat → Option (List Nat)
  | [], offsets => some offsets
  | expr :: rest, offsets =>
    match splitCustom tables cpts expr offsets with
    | none => none
    | some (first :: more) => splitExprs rest (first :: more)
    | some [] =>
      match regexIterator tables regex cpts expr with
      | none => none
      | some iterator => splitExprs rest (splitStl iterator 0 offsets)

end Split

def wordTexts : List Nat → List Nat → Option (List Bytes)
  | _, [] => some []
  | cpts, offset :: rest => do
    let word ← unicodeCptsToUtf8 (cpts.take offset)
    let words ← wordTexts (cpts.drop offset) rest
    return word :: words

def unicodeByteEncoding (word : Bytes) : Option Bytes := do
  let textUtf ← unicodeCptsToUtf8 (unicodeCptsFromUtf8 word)
  let encoded ← textUtf.mapM unicodeByteToUtf8
  return encoded.flatten

/-- `none` if an exception leaves the function. -/
def unicodeRegexSplit (tables : UnicodeTables) (regex : RegexLib) (exprs : List Bytes)
    (text : Bytes) : Option (List Bytes) := do
  let cpts := unicodeCptsFromUtf8 text
  let offsets ← splitExprs tables regex cpts exprs [cpts.length]
  let words ← wordTexts cpts offsets
  words.mapM unicodeByteEncoding

/-! ## The words together are the text -/

section Words

variable {tables : UnicodeTables} {regex : RegexLib}

theorem Fills.sum {offsets words : List Nat} (fills : Fills offsets words) :
    words.sum = offsets.sum := by
  obtain ⟨groups, rfl, rfl, _⟩ := fills
  exact List.sum_flatten

theorem splitCustom_sum (tables : UnicodeTables) (cpts : List Nat) (expr : Bytes) (offsets : List Nat) :
    ∃ words, splitCustom tables cpts expr offsets = some words ∧
      (words ≠ [] → words.sum = offsets.sum) := by
  unfold splitCustom
  split_ifs
  · obtain ⟨words, run, fills⟩ := splitCustomGpt2_fills tables cpts offsets
    exact ⟨words, run, fun _ => fills.sum⟩
  · obtain ⟨words, run, fills⟩ := splitCustomLlama3_fills tables cpts offsets
    exact ⟨words, run, fun _ => fills.sum⟩
  · exact ⟨[], rfl, fun none => absurd rfl none⟩

theorem splitExprs_sum (cpts : List Nat) : ∀ (exprs : List Bytes) (offsets words : List Nat),
    splitExprs tables regex cpts exprs offsets = some words → words.sum = offsets.sum := by
  intro exprs
  induction exprs with
  | nil =>
      intro offsets words run
      cases run
      rfl
  | cons expr rest ih =>
      intro offsets words run
      obtain ⟨custom, first, total⟩ := splitCustom_sum tables cpts expr offsets
      rw [splitExprs, first] at run
      cases custom with
      | cons head more =>
          rw [ih _ _ run]
          exact total (List.cons_ne_nil _ _)
      | nil =>
          cases compiled : regexIterator tables regex cpts expr with
          | none =>
              rw [compiled] at run
              cases run
          | some iterator =>
              simp only [compiled] at run
              rw [ih _ _ run, splitStl_sum (regexIterator_inOrder compiled)]

theorem splitExprs_none {cpts : List Nat} : ∀ {exprs : List Bytes} {offsets : List Nat},
    splitExprs tables regex cpts exprs offsets = none →
    ∃ expr ∈ exprs, Refused tables regex cpts expr := by
  intro exprs
  induction exprs with
  | nil => intro offsets stop; cases stop
  | cons expr rest ih =>
      intro offsets stop
      obtain ⟨custom, first, _⟩ := splitCustom_sum tables cpts expr offsets
      rw [splitExprs, first] at stop
      cases custom with
      | cons head more =>
          obtain ⟨later, member, broken⟩ := ih stop
          exact ⟨later, by simp [member], broken⟩
      | nil =>
          cases compiled : regexIterator tables regex cpts expr with
          | none => exact ⟨expr, by simp, regexIterator_eq_none_iff.mp compiled⟩
          | some iterator =>
              simp only [compiled] at stop
              obtain ⟨later, member, broken⟩ := ih stop
              exact ⟨later, by simp [member], broken⟩

def Custom (expr : Bytes) : Prop := expr = gpt2Expr ∨ expr = llama3Expr ∨ expr = llama3Expr'

theorem splitCustom_fills (tables : UnicodeTables) {expr : Bytes} (custom : Custom expr)
    (cpts offsets : List Nat) :
    ∃ words, splitCustom tables cpts expr offsets = some words ∧ Fills offsets words := by
  unfold splitCustom
  split_ifs with gpt2 llama3
  · exact splitCustomGpt2_fills tables cpts offsets
  · exact splitCustomLlama3_fills tables cpts offsets
  · rcases custom with first | other
    · exact absurd first gpt2
    · exact absurd other llama3

/-- With the built-in loops alone no word is empty, and `std::regex` is not asked. -/
theorem splitExprs_custom (tables : UnicodeTables) (regex : RegexLib) (cpts : List Nat) :
    ∀ {exprs : List Bytes} (offsets : List Nat),
    (∀ expr ∈ exprs, Custom expr) → 0 < offsets.sum → (∀ n ∈ offsets, 0 < n) →
    ∃ words, splitExprs tables regex cpts exprs offsets = some words ∧ ∀ n ∈ words, 0 < n := by
  intro exprs
  induction exprs with
  | nil => intro offsets _ _ positive; exact ⟨offsets, rfl, positive⟩
  | cons expr rest ih =>
      intro offsets custom total _
      obtain ⟨words, run, fills⟩ := splitCustom_fills tables (custom expr (by simp)) cpts offsets
      have sum := fills.sum
      obtain ⟨groups, rfl, _, positive⟩ := fills
      have each : ∀ n ∈ groups.flatten, 0 < n := by
        intro n member
        obtain ⟨group, among, inside⟩ := List.mem_flatten.mp member
        exact positive group among n inside
      obtain ⟨last, finish, good⟩ := ih _ (fun later member => custom later (by simp [member]))
        (by omega) each
      refine ⟨last, ?_, good⟩
      rw [splitExprs, run]
      cases filled : groups.flatten with
      | nil =>
          rw [filled] at sum
          simp only [List.sum_nil] at sum
          omega
      | cons head more =>
          rw [filled] at finish
          exact finish

def byteEncoded (bytes : Bytes) : Bytes := encode (bytes.map byteChar)

theorem wordTexts_chars : ∀ (offsets : List Nat) (text : List Char), offsets.sum = text.length →
    ∃ groups : List (List Char), groups.flatten = text ∧ groups.map List.length = offsets ∧
      wordTexts (text.map Char.toNat) offsets = some (groups.map encode) := by
  intro offsets
  induction offsets with
  | nil =>
      intro text total
      exact ⟨[], (List.eq_nil_of_length_eq_zero total.symm).symm, rfl, rfl⟩
  | cons offset rest ih =>
      intro text total
      rw [List.sum_cons] at total
      obtain ⟨groups, whole, lengths, words⟩ := ih (text.drop offset)
        (by rw [List.length_drop]; omega)
      refine ⟨text.take offset :: groups, ?_, ?_, ?_⟩
      · rw [List.flatten_cons, whole, List.take_append_drop]
      · rw [List.map_cons, lengths, List.length_take, Nat.min_eq_left (by omega)]
      · rw [wordTexts, ← List.map_take, ← List.map_drop, unicodeCptsToUtf8_chars, words]
        rfl

theorem unicodeByteEncoding_encode (word : List Char) :
    unicodeByteEncoding (encode word) = some (byteEncoded (encode word)) := by
  have each : ∀ bytes : Bytes, bytes.mapM unicodeByteToUtf8 =
      some (bytes.map fun byte => utf8EncodeChar (byteChar byte)) := by
    intro bytes
    induction bytes with
    | nil => rfl
    | cons byte rest ih =>
        rw [List.mapM_cons, unicodeByteToUtf8_eq, ih]
        rfl
  rw [unicodeByteEncoding, unicodeCptsFromUtf8_encode, unicodeCptsToUtf8_chars]
  simp only [Option.bind_eq_bind, Option.bind_some, each]
  have written : byteEncoded (encode word) =
      ((encode word).map fun byte => utf8EncodeChar (byteChar byte)).flatten := by
    rw [byteEncoded, encode.eq_def ((encode word).map byteChar), List.flatMap_def, List.map_map]
    rfl
  rw [written]
  rfl

theorem unicodeRegexSplit_of_offsets {exprs : List Bytes} {text : List Char} {offsets : List Nat}
    (split : splitExprs tables regex (text.map Char.toNat) exprs [text.length] = some offsets) :
    ∃ groups : List (List Char), groups.flatten = text ∧ groups.map List.length = offsets ∧
      unicodeRegexSplit tables regex exprs (encode text) =
        some (groups.map fun group => byteEncoded (encode group)) := by
  have total := splitExprs_sum (text.map Char.toNat) exprs _ _ split
  rw [List.sum_singleton] at total
  obtain ⟨groups, whole, lengths, words⟩ := wordTexts_chars offsets text total
  have encoded : (groups.map encode).mapM unicodeByteEncoding =
      some (groups.map fun group => byteEncoded (encode group)) := by
    clear whole words lengths
    induction groups with
    | nil => rfl
    | cons group rest ih =>
        rw [List.map_cons, List.mapM_cons, unicodeByteEncoding_encode, ih]
        rfl
  refine ⟨groups, whole, lengths, ?_⟩
  rw [unicodeRegexSplit, unicodeCptsFromUtf8_encode, List.length_map, split]
  simp only [Option.bind_eq_bind, Option.bind_some, words, encoded]

/-- The words together are the text, each in the byte alphabet.  Only an expression that is
refused makes an exception; with the built-in loops there is none on a text that is not
empty, no assertion fails and no word is empty. -/
theorem unicodeRegexSplit_spells (tables : UnicodeTables) (regex : RegexLib) (exprs : List Bytes)
    (text : List Char) :
    (unicodeRegexSplit tables regex exprs (encode text) = none →
      ∃ expr ∈ exprs, Refused tables regex (text.map Char.toNat) expr) ∧
    (∀ words, unicodeRegexSplit tables regex exprs (encode text) = some words →
      ∃ groups : List (List Char), groups.flatten = text ∧
        words = groups.map fun group => byteEncoded (encode group)) ∧
    ((∀ expr ∈ exprs, Custom expr) → text ≠ [] →
      ∃ groups : List (List Char), groups.flatten = text ∧ [] ∉ groups ∧
        unicodeRegexSplit tables regex exprs (encode text) =
          some (groups.map fun group => byteEncoded (encode group))) := by
  refine ⟨?_, ?_, ?_⟩
  · intro stop
    cases split : splitExprs tables regex (text.map Char.toNat) exprs [text.length] with
    | none => exact splitExprs_none split
    | some offsets =>
        obtain ⟨groups, _, _, run⟩ := unicodeRegexSplit_of_offsets split
        rw [run] at stop
        cases stop
  · intro words result
    cases split : splitExprs tables regex (text.map Char.toNat) exprs [text.length] with
    | none =>
        rw [unicodeRegexSplit, unicodeCptsFromUtf8_encode, List.length_map, split] at result
        cases result
    | some offsets =>
        obtain ⟨groups, whole, _, run⟩ := unicodeRegexSplit_of_offsets split
        rw [run] at result
        cases result
        exact ⟨groups, whole, rfl⟩
  · intro custom nonempty
    have positive := List.length_pos_iff.mpr nonempty
    obtain ⟨offsets, split, good⟩ := splitExprs_custom tables regex (text.map Char.toNat)
      [text.length] custom (by simpa using positive) (by simpa using positive)
    obtain ⟨groups, whole, lengths, run⟩ := unicodeRegexSplit_of_offsets split
    refine ⟨groups, whole, ?_, run⟩
    intro empty
    have zero : 0 ∈ offsets := by
      rw [← lengths]
      exact List.mem_map.mpr ⟨[], empty, rfl⟩
    exact Nat.lt_irrefl 0 (good 0 zero)

end Words

end MineGPT.Vocab
