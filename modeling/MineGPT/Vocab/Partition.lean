import Mathlib.Data.List.InsertIdx
import MineGPT.Lib.TextSearch
import MineGPT.Vocab.Tokens

/-!
# Taking the special tokens out of a text

`tokenizer_st_partition` goes over a linked list of fragments once for each
special token and replaces, in place, every fragment that holds the token's text
by what is left of it, the token, and what is right of it.  `Covers` says what the
list stands for: the text, in order, with blanks missing only beside tokens that
ask for it.
-/

set_option autoImplicit false

namespace MineGPT.Vocab

open MineGPT.Lib.ByteString MineGPT.Lib.TextSearch

variable {S : Type}

/-- The text fragments are all of one text. -/
inductive Fragment where
  | rawText (offset length : Nat)
  | token (id : Nat)
  deriving DecidableEq, Repr

def isspace (b : UInt8) : Bool := b == 0x20 || (0x09 ≤ b && b ≤ 0x0d)

/-! ## The list and its iterator -/

def emplaceAfter (buffer : List Fragment) (it : Nat) (fragment : Fragment) : List Fragment :=
  buffer.insertIdx (it + 1) fragment

def dropBlanksAtEnd (raw : Bytes) (offset : Nat) : Nat → Nat
  | 0 => 0
  | length + 1 =>
    if isspace (raw.getD (offset + length) 0) then dropBlanksAtEnd raw offset length
    else length + 1

def dropBlanksAtStart (raw : Bytes) : Nat → Nat → Nat × Nat
  | offset, 0 => (offset, 0)
  | offset, length + 1 =>
    if isspace (raw.getD offset 0) then dropBlanksAtStart raw (offset + 1) length
    else (offset, length + 1)

/-- A new fragment behind the iterator, which moves on to it; none for an empty text. -/
def emplaceText (buffer : List Fragment) (it offset length : Nat) : List Fragment × Nat :=
  if 0 < length then (emplaceAfter buffer it (.rawText offset length), it + 1) else (buffer, it)

structure SpecialToken where
  id : Nat
  text : Bytes
  lstrip : Bool
  rstrip : Bool

/-- The text between the start of the fragment and the match. -/
def leftLength (raw : Bytes) (special : SpecialToken) (offset found : Nat) : Nat :=
  if special.lstrip then dropBlanksAtEnd raw offset (found - offset) else found - offset

/-- The offset and the length of what is behind the match. -/
def rightPart (raw : Bytes) (special : SpecialToken) (offset length found : Nat) : Nat × Nat :=
  let rightOffset := found + special.text.length
  let rightLength := length - ((found - offset) + special.text.length)
  if special.rstrip then dropBlanksAtStart raw rightOffset rightLength
  else (rightOffset, rightLength)

/-- The loop over the text of one fragment.  The iterator is an index, so it goes
down by one when the fragment that is replaced is erased in front of it. -/
def splitLoop (raw : Bytes) (special : SpecialToken) :
    Nat → List Fragment → Nat → Nat → Nat → Option (List Fragment × Nat)
  | 0, _, _, _, _ => none
  | fuel + 1, buffer, it, offset, length =>
    match findFrom raw special.text offset with
    | none => some (buffer, it)
    | some found =>
      if offset + length < found + special.text.length then some (buffer, it)
      else
        let source := it
        let (buffer, it) :=
          if offset < found then
            emplaceText buffer it offset (leftLength raw special offset found)
          else (buffer, it)
        let (buffer, it) := (emplaceAfter buffer it (.token special.id), it + 1)
        if found + special.text.length < offset + length then
          let (rightOffset, rightLength) := rightPart raw special offset length found
          let (buffer, it) := emplaceText buffer it rightOffset rightLength
          splitLoop raw special fuel (buffer.eraseIdx source) (it - 1) rightOffset rightLength
        else some (buffer.eraseIdx source, it - 1)

/-- The loop over the fragments for one special token. -/
def partitionLoop (raw : Bytes) (special : SpecialToken) :
    Nat → List Fragment → Nat → Option (List Fragment)
  | 0, _, _ => none
  | fuel + 1, buffer, it =>
    match buffer[it]? with
    | none => some buffer
    | some (.token _) => partitionLoop raw special fuel buffer (it + 1)
    | some (.rawText offset length) =>
      match splitLoop raw special (length + 1) buffer it offset length with
      | none => none
      | some (buffer, it) => partitionLoop raw special fuel buffer (it + 1)

def LlamaVocab.specialToken (vocab : LlamaVocab S) (id : Nat) : Option SpecialToken :=
  (vocab.getTokenData id).map fun token =>
    { id := id, text := token.text, lstrip := token.has attrLstrip,
      rstrip := token.has attrRstrip }

def LlamaVocab.skipped (vocab : LlamaVocab S) (parseSpecial : Bool) (id : Nat) : Bool :=
  !parseSpecial && (vocab.getTokenData id).any fun token => token.has (attrControl ||| attrUnknown)

/-- `none` if it never comes to an end, or if an id is not in the table. -/
def tokenizerStPartition (vocab : LlamaVocab S) (raw : Bytes) (parseSpecial : Bool) :
    List Nat → List Fragment → Option (List Fragment)
  | [], buffer => some buffer
  | id :: rest, buffer =>
    if vocab.skipped parseSpecial id then tokenizerStPartition vocab raw parseSpecial rest buffer
    else
      match vocab.specialToken id with
      | none => none
      | some special =>
        match partitionLoop raw special (buffer.length + 1) buffer 0 with
        | none => none
        | some buffer => tokenizerStPartition vocab raw parseSpecial rest buffer

/-! ## What a list of fragments stands for -/

/-- Only blanks between two positions. -/
def Blank (raw : Bytes) (a b : Nat) : Prop :=
  a ≤ b ∧ ∀ i, a ≤ i → i < b → isspace (raw.getD i 0) = true

section Covers

variable (vocab : LlamaVocab S) (raw : Bytes)

inductive Covers : Nat → List Fragment → Nat → Prop where
  | done (a : Nat) : Covers a [] a
  | text {a n e : Nat} {rest : List Fragment} (nonempty : 0 < n) (later : Covers (a + n) rest e) :
      Covers a (.rawText a n :: rest) e
  | token {a b c e : Nat} {special : SpecialToken} {rest : List Fragment}
      (known : vocab.specialToken special.id = some special)
      (before : Blank raw a b) (onLeft : a < b → special.lstrip = true)
      (stands : special.text <+: raw.drop b)
      (after : Blank raw (b + special.text.length) c)
      (onRight : b + special.text.length < c → special.rstrip = true)
      (later : Covers c rest e) : Covers a (.token special.id :: rest) e

end Covers

/-- The text stands somewhere in this part of the whole. -/
def Occurs (raw text : Bytes) (offset length : Nat) : Prop :=
  ∃ i, offset ≤ i ∧ i + text.length ≤ offset + length ∧ text <+: raw.drop i

def Clear (raw text : Bytes) (fragments : List Fragment) : Prop :=
  ∀ offset length, .rawText offset length ∈ fragments → ¬ Occurs raw text offset length

/-- Positions at which a text may be cut: around the tokens, and between blanks as well as
beside them. -/
structure Cutting (vocab : LlamaVocab S) (raw : Bytes) (Cut : Nat → Prop) : Prop where
  matched : ∀ special i, vocab.specialToken special.id = some special → special.text ≠ [] →
    special.text <+: raw.drop i → Cut i ∧ Cut (i + special.text.length)
  blank : ∀ i, isspace (raw.getD i 0) = true → (Cut i ↔ Cut (i + 1))

/-- Every text fragment is a part of one of the others, and is cut where it may be. -/
def Refines (vocab : LlamaVocab S) (raw : Bytes) (fragments others : List Fragment) : Prop :=
  ∀ offset length, .rawText offset length ∈ fragments → ∃ offset' length',
    .rawText offset' length' ∈ others ∧ offset' ≤ offset ∧ offset + length ≤ offset' + length' ∧
      ∀ Cut, Cutting vocab raw Cut → Cut offset' → Cut (offset' + length') →
        Cut offset ∧ Cut (offset + length)

section Lists

variable {vocab : LlamaVocab S} {raw : Bytes}

theorem Covers.append {xs ys : List Fragment} : ∀ {a b e : Nat}, Covers vocab raw a xs b →
    Covers vocab raw b ys e → Covers vocab raw a (xs ++ ys) e := by
  intro a b e front back
  induction front with
  | done a => exact back
  | text nonempty later ih => exact Covers.text nonempty (ih back)
  | token known before onLeft stands after onRight later ih =>
      exact Covers.token known before onLeft stands after onRight (ih back)

theorem Covers.split {xs ys : List Fragment} : ∀ {a e : Nat}, Covers vocab raw a (xs ++ ys) e →
    ∃ b, Covers vocab raw a xs b ∧ Covers vocab raw b ys e := by
  induction xs with
  | nil => intro a e whole; exact ⟨a, Covers.done a, whole⟩
  | cons head xs ih =>
      intro a e whole
      cases whole with
      | text nonempty later =>
          obtain ⟨b, front, back⟩ := ih later
          exact ⟨b, Covers.text nonempty front, back⟩
      | token known before onLeft stands after onRight later =>
          obtain ⟨b, front, back⟩ := ih later
          exact ⟨b, Covers.token known before onLeft stands after onRight front, back⟩

theorem Refines.refl (fragments : List Fragment) : Refines vocab raw fragments fragments :=
  fun offset length member =>
    ⟨offset, length, member, Nat.le_refl _, Nat.le_refl _, fun _ _ start stop => ⟨start, stop⟩⟩

theorem Refines.trans {xs ys zs : List Fragment} (first : Refines vocab raw xs ys)
    (second : Refines vocab raw ys zs) : Refines vocab raw xs zs := by
  intro offset length member
  obtain ⟨offset', length', member', low', high', cuts'⟩ := first offset length member
  obtain ⟨offset'', length'', member'', low'', high'', cuts''⟩ := second offset' length' member'
  refine ⟨offset'', length'', member'', by omega, by omega, ?_⟩
  intro Cut cutting start stop
  obtain ⟨start', stop'⟩ := cuts'' Cut cutting start stop
  exact cuts' Cut cutting start' stop'

theorem Clear.refines {text : Bytes} {xs ys : List Fragment} (clear : Clear raw text ys)
    (smaller : Refines vocab raw xs ys) : Clear raw text xs := by
  intro offset length member occurs
  obtain ⟨offset', length', member', low, high, _⟩ := smaller offset length member
  obtain ⟨i, after, inside, stands⟩ := occurs
  exact clear offset' length' member' ⟨i, by omega, by omega, stands⟩

theorem emplaceAfter_append : ∀ (front back : List Fragment) (fragment : Fragment) (it : Nat),
    front.length = it + 1 → emplaceAfter (front ++ back) it fragment = front ++ fragment :: back := by
  intro front back fragment it last
  unfold emplaceAfter
  rw [← last]
  clear last
  induction front with
  | nil => rfl
  | cons head front ih => simpa using ih

theorem eraseIdx_append (pre post : List Fragment) (here : Fragment) :
    (pre ++ here :: post).eraseIdx pre.length = pre ++ post := by
  rw [List.eraseIdx_append_of_length_le (Nat.le_refl _), Nat.sub_self]
  rfl

end Lists

/-! ## One fragment -/

section Split

variable {vocab : LlamaVocab S} {raw : Bytes} {special : SpecialToken}

theorem Blank.refl (a : Nat) : Blank raw a a := ⟨Nat.le_refl a, fun i low high => by omega⟩

theorem Cutting.blank_iff {Cut : Nat → Prop} (cutting : Cutting vocab raw Cut) {a b : Nat}
    (blank : Blank raw a b) : Cut a ↔ Cut b := by
  obtain ⟨ahead, blanks⟩ := blank
  obtain ⟨n, rfl⟩ : ∃ n, b = a + n := ⟨b - a, by omega⟩
  clear ahead
  induction n with
  | zero => exact Iff.rfl
  | succ n ih =>
      rw [ih fun i low high => blanks i low (by omega)]
      exact cutting.blank (a + n) (blanks (a + n) (by omega) (by omega))

theorem dropBlanksAtEnd_spec (raw : Bytes) (offset : Nat) : ∀ length,
    dropBlanksAtEnd raw offset length ≤ length ∧
      Blank raw (offset + dropBlanksAtEnd raw offset length) (offset + length) := by
  intro length
  induction length with
  | zero => exact ⟨Nat.le_refl 0, Blank.refl _⟩
  | succ length ih =>
      rw [dropBlanksAtEnd]
      split_ifs with blank
      · obtain ⟨shorter, from_, blanks⟩ := ih
        refine ⟨by omega, by omega, ?_⟩
        intro i low high
        rcases Nat.lt_or_ge i (offset + length) with inside | last
        · exact blanks i low inside
        · have same : i = offset + length := by omega
          rw [same]
          exact blank
      · exact ⟨Nat.le_refl _, Blank.refl _⟩

theorem dropBlanksAtStart_spec (raw : Bytes) : ∀ length offset,
    Blank raw offset (dropBlanksAtStart raw offset length).1 ∧
      (dropBlanksAtStart raw offset length).1 + (dropBlanksAtStart raw offset length).2 =
        offset + length := by
  intro length
  induction length with
  | zero => intro offset; exact ⟨Blank.refl _, rfl⟩
  | succ length ih =>
      intro offset
      rw [dropBlanksAtStart]
      split_ifs with blank
      · obtain ⟨⟨onward, blanks⟩, total⟩ := ih (offset + 1)
        refine ⟨⟨by omega, ?_⟩, by omega⟩
        intro i low high
        rcases Nat.lt_or_ge offset i with later | here
        · exact blanks i later high
        · have same : i = offset := by omega
          rw [same]
          exact blank
      · exact ⟨Blank.refl _, rfl⟩

/-- The fragment for a part of the text, none for an empty one. -/
def textPiece (offset length : Nat) : List Fragment :=
  if 0 < length then [.rawText offset length] else []

theorem emplaceText_append (front back : List Fragment) (it offset length : Nat)
    (last : front.length = it + 1) :
    emplaceText (front ++ back) it offset length =
      (front ++ (textPiece offset length ++ back), it + (textPiece offset length).length) := by
  unfold emplaceText textPiece
  split_ifs
  · rw [emplaceAfter_append front back _ it last]
    rfl
  · rfl

theorem leftLength_spec (raw : Bytes) (special : SpecialToken) {offset found : Nat} (ahead : offset ≤ found) :
    leftLength raw special offset found ≤ found - offset ∧
      Blank raw (offset + leftLength raw special offset found) found ∧
      (offset + leftLength raw special offset found < found → special.lstrip = true) := by
  unfold leftLength
  split_ifs with strip
  · obtain ⟨shorter, blank⟩ := dropBlanksAtEnd_spec raw offset (found - offset)
    have place : offset + (found - offset) = found := by omega
    rw [place] at blank
    exact ⟨shorter, blank, fun _ => strip⟩
  · have place : offset + (found - offset) = found := by omega
    rw [place]
    exact ⟨Nat.le_refl _, Blank.refl _, fun less => by omega⟩

theorem rightPart_spec (raw : Bytes) (special : SpecialToken) {offset length found : Nat} (ahead : offset ≤ found)
    (inside : found + special.text.length ≤ offset + length) :
    Blank raw (found + special.text.length) (rightPart raw special offset length found).1 ∧
      (found + special.text.length < (rightPart raw special offset length found).1 →
        special.rstrip = true) ∧
      (rightPart raw special offset length found).1 +
        (rightPart raw special offset length found).2 = offset + length := by
  unfold rightPart
  split_ifs with strip
  · obtain ⟨blank, total⟩ := dropBlanksAtStart_spec raw
      (length - ((found - offset) + special.text.length)) (found + special.text.length)
    exact ⟨blank, fun _ => strip, by rw [total]; omega⟩
  · exact ⟨Blank.refl _, fun less => absurd less (Nat.lt_irrefl _), by simp only; omega⟩

theorem splitLoop_match (fuel : Nat) (pre post : List Fragment) {offset length found : Nat}
    (search : findFrom raw special.text offset = some found)
    (inside : found + special.text.length ≤ offset + length) :
    splitLoop raw special (fuel + 1) (pre ++ .rawText offset length :: post) pre.length offset
        length =
      let left := textPiece offset (leftLength raw special offset found)
      let right := rightPart raw special offset length found
      if found + special.text.length < offset + length then
        splitLoop raw special fuel
          (pre ++ left ++ .token special.id :: (textPiece right.1 right.2 ++ post))
          (pre.length + left.length + (textPiece right.1 right.2).length) right.1 right.2
      else some (pre ++ left ++ .token special.id :: post, pre.length + left.length) := by
  have ahead := (findFrom_some search).1
  have onLeft : (if offset < found then
      emplaceText (pre ++ .rawText offset length :: post) pre.length offset
        (leftLength raw special offset found)
      else (pre ++ .rawText offset length :: post, pre.length)) =
      (pre ++ [.rawText offset length] ++
          (textPiece offset (leftLength raw special offset found) ++ post),
        pre.length + (textPiece offset (leftLength raw special offset found)).length) := by
    by_cases further : offset < found
    · have placed := emplaceText_append (pre ++ [Fragment.rawText offset length]) post pre.length
        offset (leftLength raw special offset found) (by simp)
      rw [if_pos further, ← placed, List.append_assoc]
      rfl
    · have none : leftLength raw special offset found = 0 := by
        have shorter := (leftLength_spec raw special ahead).1
        omega
      rw [if_neg further, none]
      simp [textPiece]
  rw [splitLoop, search]
  simp only [if_neg (Nat.not_lt.mpr inside), onLeft]
  generalize textPiece offset (leftLength raw special offset found) = left
  have withToken : emplaceAfter (pre ++ [.rawText offset length] ++ (left ++ post))
      (pre.length + left.length) (.token special.id) =
        pre ++ .rawText offset length :: (left ++ .token special.id :: post) := by
    rw [← List.append_assoc, emplaceAfter_append _ _ _ _ (by simp; omega)]
    simp
  have erased : ∀ rest : List Fragment,
      (pre ++ .rawText offset length :: rest).eraseIdx pre.length = pre ++ rest :=
    fun rest => eraseIdx_append pre rest _
  rw [withToken]
  split_ifs with more
  · have withRight := emplaceText_append (pre ++ .rawText offset length :: (left ++
      [.token special.id])) post (pre.length + left.length + 1)
      (rightPart raw special offset length found).1 (rightPart raw special offset length found).2
      (by simp; omega)
    have shape : pre ++ Fragment.rawText offset length :: (left ++ .token special.id :: post) =
        pre ++ .rawText offset length :: (left ++ [.token special.id]) ++ post := by simp
    rw [shape, withRight]
    simp only [List.append_assoc, List.cons_append, erased, List.nil_append]
    congr 1
    omega
  · simp only [erased, List.append_assoc, Option.some.injEq, Prod.mk.injEq, true_and]
    omega

theorem not_occurs {offset length : Nat} (inside : offset + length ≤ raw.length)
    (miss : ∀ found, findFrom raw special.text offset = some found →
      offset + length < found + special.text.length) :
    ¬ Occurs raw special.text offset length := by
  intro ⟨i, after, within, stands⟩
  cases search : findFrom raw special.text offset with
  | none => exact findFrom_none search after (by omega) stands
  | some found =>
      have beyond := miss found search
      have first := (findFrom_some search).2.2 i after (by omega)
      exact first stands

theorem splitLoop_empty (nonempty : special.text ≠ []) (fuel : Nat) (buffer : List Fragment)
    (it offset : Nat) :
    splitLoop raw special (fuel + 1) buffer it offset 0 = some (buffer, it) := by
  have positive := List.length_pos_iff.mpr nonempty
  rw [splitLoop]
  cases search : findFrom raw special.text offset with
  | none => rfl
  | some found =>
      have ahead := (findFrom_some search).1
      exact if_pos (by omega)

theorem mem_textPiece {offset length offset' length' : Nat}
    (member : Fragment.rawText offset' length' ∈ textPiece offset length) :
    offset' = offset ∧ length' = length := by
  unfold textPiece at member
  split_ifs at member
  · simpa using member
  · cases member

theorem covers_textPiece (offset length : Nat) :
    Covers vocab raw offset (textPiece offset length) (offset + length) := by
  unfold textPiece
  split_ifs with positive
  · exact Covers.text positive (Covers.done _)
  · have none : length = 0 := by omega
    rw [none]
    exact Covers.done _

structure Pieces (vocab : LlamaVocab S) (raw : Bytes) (special : SpecialToken)
    (offset length : Nat) (pieces : List Fragment) : Prop where
  nonempty : pieces ≠ []
  covers : Covers vocab raw offset pieces (offset + length)
  clear : Clear raw special.text pieces
  inside : Refines vocab raw pieces [.rawText offset length]

theorem pieces_match (known : vocab.specialToken special.id = some special)
    (nonempty : special.text ≠ []) {offset length found rightOffset : Nat} {pieces : List Fragment}
    (search : findFrom raw special.text offset = some found)
    (inside : found + special.text.length ≤ offset + length)
    (blank : Blank raw (found + special.text.length) rightOffset)
    (strip : found + special.text.length < rightOffset → special.rstrip = true)
    (covers : Covers vocab raw rightOffset pieces (offset + length))
    (clear : Clear raw special.text pieces)
    (within : Refines vocab raw pieces [.rawText offset length]) :
    Pieces vocab raw special offset length
      (textPiece offset (leftLength raw special offset found) ++ .token special.id :: pieces) := by
  have textPos := List.length_pos_iff.mpr nonempty
  obtain ⟨ahead, stands, earlier⟩ := findFrom_some search
  obtain ⟨leftShort, leftBlank, leftStrip⟩ :=
    leftLength_spec raw special ahead
  generalize leftLength raw special offset found = leftN at *
  have cases : ∀ offset' length', .rawText offset' length' ∈
      textPiece offset leftN ++ .token special.id :: pieces →
      offset' = offset ∧ length' = leftN ∨ .rawText offset' length' ∈ pieces := by
    intro offset' length' member
    rcases List.mem_append.mp member with left | right
    · exact Or.inl (mem_textPiece left)
    · exact Or.inr (by simpa using right)
  refine ⟨by simp, ?_, ?_, ?_⟩
  · refine (covers_textPiece offset leftN).append ?_
    exact Covers.token known leftBlank leftStrip stands blank strip covers
  · intro offset' length' member
    rcases cases offset' length' member with ⟨rfl, rfl⟩ | right
    · intro ⟨i, after, before, here⟩
      exact earlier i after (by omega) here
    · exact clear offset' length' right
  · intro offset' length' member
    rcases cases offset' length' member with ⟨rfl, rfl⟩ | right
    · refine ⟨_, length, by simp, Nat.le_refl _, by omega, fun Cut cutting start stop => ⟨start, ?_⟩⟩
      exact (cutting.blank_iff leftBlank).mpr (cutting.matched special found known nonempty stands).1
    · exact within offset' length' right

theorem splitLoop_spec (known : vocab.specialToken special.id = some special)
    (nonempty : special.text ≠ []) : ∀ (fuel : Nat) (pre post : List Fragment)
    (offset length : Nat), length < fuel → 0 < length → offset + length ≤ raw.length →
    ∃ pieces, Pieces vocab raw special offset length pieces ∧
      splitLoop raw special fuel (pre ++ .rawText offset length :: post) pre.length offset length =
        some (pre ++ pieces ++ post, pre.length + pieces.length - 1) := by
  have textPos := List.length_pos_iff.mpr nonempty
  have noneClear : Clear raw special.text [] := fun _ _ member => by cases member
  have noneInside : ∀ others, Refines vocab raw [] others := fun _ _ _ member => by cases member
  intro fuel
  induction fuel with
  | zero => intro pre post offset length enough; omega
  | succ fuel ih =>
      intro pre post offset length enough positive within
      by_cases miss : ∀ found, findFrom raw special.text offset = some found →
          offset + length < found + special.text.length
      · refine ⟨[.rawText offset length], ⟨by simp, Covers.text positive (Covers.done _), ?_,
          Refines.refl _⟩, ?_⟩
        · intro offset' length' member
          obtain ⟨rfl, rfl⟩ : offset' = offset ∧ length' = length := by simpa using member
          exact not_occurs within miss
        · rw [splitLoop]
          cases search : findFrom raw special.text offset with
          | none => simp
          | some found => simp [miss found search]
      · push Not at miss
        obtain ⟨found, search, inside⟩ := miss
        have ahead := (findFrom_some search).1
        obtain ⟨blank, strip, total⟩ := rightPart_spec raw special ahead inside
        have good := @pieces_match S vocab raw special known nonempty offset length found
        rw [splitLoop_match fuel pre post search inside]
        generalize textPiece offset (leftLength raw special offset found) = left at *
        generalize rightPart raw special offset length found = right at *
        obtain ⟨rightOffset, rightN⟩ := right
        simp only at blank strip total ⊢
        have onward := blank.1
        split_ifs with more
        · by_cases rest : 0 < rightN
          · obtain ⟨pieces, later, run⟩ := ih (pre ++ left ++ [.token special.id]) post rightOffset
              rightN (by omega) rest (by omega)
            have part : Refines vocab raw [.rawText rightOffset rightN]
                [.rawText offset length] := by
              intro offset' length' member
              obtain ⟨rfl, rfl⟩ : offset' = rightOffset ∧ length' = rightN := by simpa using member
              refine ⟨offset, length, by simp, by omega, by omega, ?_⟩
              intro Cut cutting start stop
              have behind := (cutting.matched special found known nonempty
                (findFrom_some search).2.1).2
              exact ⟨(cutting.blank_iff blank).mp behind, total ▸ stop⟩
            refine ⟨_, good search inside blank strip (total ▸ later.covers) later.clear
              (later.inside.trans part), ?_⟩
            have one : textPiece rightOffset rightN = [.rawText rightOffset rightN] := if_pos rest
            have piecesPos := List.length_pos_iff.mpr later.nonempty
            have place : (pre ++ left ++ [Fragment.token special.id]).length =
                pre.length + left.length + (textPiece rightOffset rightN).length := by
              rw [one]
              simp [Nat.add_assoc]
            rw [place] at run
            rw [one] at run ⊢
            simp only [List.append_assoc, List.cons_append, List.nil_append] at run ⊢
            rw [run]
            simp
            omega
          · have none : rightN = 0 := by omega
            subst none
            refine ⟨_, good search inside blank strip (total ▸ Covers.done _) noneClear
              (noneInside _), ?_⟩
            obtain ⟨fuel, rfl⟩ : ∃ k, fuel = k + 1 := ⟨fuel - 1, by omega⟩
            rw [splitLoop_empty nonempty]
            simp [textPiece]
        · have ends : found + special.text.length = offset + length := by omega
          refine ⟨_, good search inside (Blank.refl _) (fun less => absurd less (Nat.lt_irrefl _))
            (ends ▸ Covers.done _) noneClear (noneInside _), ?_⟩
          simp

end Split

/-! ## The whole list -/

section Partition

variable {vocab : LlamaVocab S} {raw : Bytes}

theorem Covers.le {a e : Nat} {fragments : List Fragment} (covers : Covers vocab raw a fragments e) :
    a ≤ e := by
  induction covers with
  | done a => exact Nat.le_refl a
  | text nonempty later ih => omega
  | token known before onLeft stands after onRight later ih =>
      have up := before.1
      have on := after.1
      omega

theorem Clear.append {text : Bytes} {xs ys : List Fragment} (front : Clear raw text xs)
    (back : Clear raw text ys) : Clear raw text (xs ++ ys) := by
  intro offset length member
  rcases List.mem_append.mp member with left | right
  · exact front offset length left
  · exact back offset length right

theorem refines_replace {pre post pieces : List Fragment} {offset length : Nat}
    (inside : Refines vocab raw pieces [.rawText offset length]) :
    Refines vocab raw (pre ++ pieces ++ post) (pre ++ .rawText offset length :: post) := by
  intro offset' length' member
  simp only [List.mem_append] at member
  rcases member with (left | among) | right
  · exact ⟨offset', length', by simp [left], Nat.le_refl _, Nat.le_refl _,
      fun _ _ start stop => ⟨start, stop⟩⟩
  · obtain ⟨o, n, here, bounds⟩ := inside offset' length' among
    exact ⟨o, n, by simp_all, bounds⟩
  · exact ⟨offset', length', by simp [right], Nat.le_refl _, Nat.le_refl _,
      fun _ _ start stop => ⟨start, stop⟩⟩

theorem partitionLoop_spec {special : SpecialToken}
    (known : vocab.specialToken special.id = some special) (nonempty : special.text ≠ []) :
    ∀ (fuel : Nat) (pre post : List Fragment) (start : Nat), post.length < fuel →
    Covers vocab raw start (pre ++ post) raw.length → Clear raw special.text pre →
    ∃ result, partitionLoop raw special fuel (pre ++ post) pre.length = some result ∧
      Covers vocab raw start result raw.length ∧ Clear raw special.text result ∧
      Refines vocab raw result (pre ++ post) := by
  intro fuel
  induction fuel with
  | zero => intro pre post start enough; omega
  | succ fuel ih =>
      intro pre post start enough covers clear
      rw [partitionLoop]
      cases post with
      | nil =>
          rw [List.append_nil] at covers ⊢
          rw [List.getElem?_eq_none (Nat.le_refl _)]
          exact ⟨pre, rfl, covers, clear, Refines.refl pre⟩
      | cons head post =>
          have here : (pre ++ head :: post)[pre.length]? = some head := by simp
          rw [here]
          cases head with
          | token id =>
              have later := ih (pre ++ [.token id]) post start (by simpa using enough)
                (by simpa using covers) (clear.append fun o n member => by simp at member)
              simpa using later
          | rawText offset length =>
              obtain ⟨middle, front, back⟩ := covers.split
              cases back with
              | text positive later =>
                  have within := later.le
                  obtain ⟨pieces, good, run⟩ := splitLoop_spec known nonempty (length + 1) pre post
                    offset length (Nat.lt_succ_self _) positive within
                  have piecesPos := List.length_pos_iff.mpr good.nonempty
                  have next : pre.length + pieces.length - 1 + 1 = (pre ++ pieces).length := by
                    rw [List.length_append]
                    omega
                  obtain ⟨result, finish, covered, cleared, smaller⟩ := ih (pre ++ pieces) post start
                    (by simpa using enough) ((front.append good.covers).append later)
                    (clear.append good.clear)
                  refine ⟨result, ?_, covered, cleared, smaller.trans (refines_replace good.inside)⟩
                  simp only [run, next]
                  exact finish

/-- The tokens that are looked for are found: no text fragment is left that holds one. -/
def AllClear (vocab : LlamaVocab S) (raw : Bytes) (parseSpecial : Bool) (ids : List Nat)
    (fragments : List Fragment) : Prop :=
  ∀ id ∈ ids, vocab.skipped parseSpecial id = false →
    Clear raw (vocab.tokenText id) fragments

theorem partition_runs (parseSpecial : Bool) : ∀ (ids : List Nat) (fragments : List Fragment),
    (∀ id ∈ ids, id < vocab.nTokens) → Covers vocab raw 0 fragments raw.length →
    ∃ result, tokenizerStPartition vocab raw parseSpecial ids fragments = some result ∧
      Covers vocab raw 0 result raw.length ∧ Refines vocab raw result fragments ∧
      AllClear vocab raw parseSpecial ids result := by
  intro ids
  induction ids with
  | nil =>
      intro fragments _ covers
      exact ⟨fragments, rfl, covers, Refines.refl _, fun id member => by cases member⟩
  | cons id rest ih =>
      intro fragments known covers
      rw [tokenizerStPartition]
      by_cases skip : vocab.skipped parseSpecial id = true
      · rw [if_pos skip]
        obtain ⟨result, run, covered, smaller, clear⟩ := ih fragments
          (fun other member => known other (by simp [member])) covers
        refine ⟨result, run, covered, smaller, ?_⟩
        intro other member wanted
        rcases List.mem_cons.mp member with rfl | member
        · rw [skip] at wanted
          cases wanted
        · exact clear other member wanted
      · rw [if_neg skip]
        have inside := known id (by simp)
        obtain ⟨token, here⟩ : ∃ token, vocab.getTokenData id = some token :=
          ⟨_, List.getElem?_eq_getElem inside⟩
        obtain ⟨special, look, rfl, text⟩ : ∃ special, vocab.specialToken id = some special ∧
            special.id = id ∧ special.text = token.text := by
          rw [LlamaVocab.specialToken, here]
          exact ⟨_, rfl, rfl, rfl⟩
        have shown : vocab.tokenText special.id = special.text := by
          rw [LlamaVocab.tokenText, here, text]
        obtain ⟨once, run, covered, cleared, smaller⟩ := partitionLoop_spec look
          (text ▸ vocab.text_ne_nil here) (fragments.length + 1) [] fragments 0 (Nat.lt_succ_self _)
          covers (fun o n member => by cases member)
        obtain ⟨result, finish, coveredAll, smallerAll, clear⟩ := ih once
          (fun other member => known other (by simp [member])) covered
        refine ⟨result, ?_, coveredAll, smallerAll.trans smaller, ?_⟩
        · rw [List.nil_append, List.length_nil] at run
          simp only [look, run, finish]
        · intro other member wanted
          rcases List.mem_cons.mp member with rfl | member
          · rw [shown]
            exact cleared.refines smallerAll
          · exact clear other member wanted

theorem SpecialCache.lt (cache : SpecialCache vocab) {id : Nat} (member : id ∈ cache.ids) :
    id < vocab.nTokens := by
  have among := cache.perm.mem_iff.mp member
  exact List.mem_range.mp (List.mem_filter.mp among).1

def partitionText (vocab : LlamaVocab S) (cache : SpecialCache vocab) (raw : Bytes)
    (parseSpecial : Bool) : Option (List Fragment) :=
  if raw = [] then some []
  else tokenizerStPartition vocab raw parseSpecial cache.ids [.rawText 0 raw.length]

theorem partitionText_covers (cache : SpecialCache vocab) (raw : Bytes) (parseSpecial : Bool) :
    ∃ fragments, partitionText vocab cache raw parseSpecial = some fragments ∧
      Covers vocab raw 0 fragments raw.length ∧
      AllClear vocab raw parseSpecial cache.ids fragments ∧
      Refines vocab raw fragments [.rawText 0 raw.length] := by
  unfold partitionText
  split_ifs with empty
  · refine ⟨[], rfl, ?_, ?_, ?_⟩
    · rw [empty]
      exact Covers.done 0
    · intro id _ _ offset length member
      cases member
    · intro offset length member
      cases member
  · have positive := List.length_pos_iff.mpr empty
    have start : Covers vocab raw 0 [.rawText 0 raw.length] raw.length :=
      Covers.text positive (by rw [Nat.zero_add]; exact Covers.done _)
    obtain ⟨result, run, covered, smaller, clear⟩ := partition_runs parseSpecial cache.ids _
      (fun id member => cache.lt member) start
    exact ⟨result, run, covered, clear, smaller⟩

theorem mem_emplaceText {buffer : List Fragment} {it offset length id : Nat}
    (member : .token id ∈ (emplaceText buffer it offset length).1) : .token id ∈ buffer := by
  unfold emplaceText at member
  split_ifs at member
  · rcases List.eq_or_mem_of_mem_insertIdx member with text | before
    · cases text
    · exact before
  · exact member

theorem splitLoop_tokens (special : SpecialToken) : ∀ (fuel : Nat) (buffer : List Fragment)
    (it offset length : Nat) (result : List Fragment × Nat),
    splitLoop raw special fuel buffer it offset length = some result →
    ∀ id, .token id ∈ result.1 → .token id ∈ buffer ∨ id = special.id := by
  intro fuel
  induction fuel with
  | zero => intro buffer it offset length result run; cases run
  | succ fuel ih =>
      intro buffer it offset length result run id member
      have placed : ∀ {buffer : List Fragment} {it : Nat},
          .token id ∈ emplaceAfter buffer it (.token special.id) →
          .token id ∈ buffer ∨ id = special.id := by
        intro buffer it inside
        rcases List.eq_or_mem_of_mem_insertIdx inside with same | old
        · cases same
          exact Or.inr rfl
        · exact Or.inl old
      rw [splitLoop] at run
      cases search : findFrom raw special.text offset with
      | none =>
          simp only [search, Option.some.injEq] at run
          exact Or.inl (by rw [← run] at member; exact member)
      | some found =>
          have before : .token id ∈ (if offset < found then
              emplaceText buffer it offset (leftLength raw special offset found)
              else (buffer, it)).1 → .token id ∈ buffer := by
            split_ifs
            · exact mem_emplaceText
            · exact fun inside => inside
          simp only [search] at run
          generalize (if offset < found then
            emplaceText buffer it offset (leftLength raw special offset found)
            else (buffer, it)) = left at run before
          split_ifs at run
          · cases run
            exact Or.inl member
          · rcases ih _ _ _ _ _ run id member with old | same
            · have kept := mem_emplaceText (List.mem_of_mem_eraseIdx old)
              exact (placed kept).imp_left before
            · exact Or.inr same
          · simp only [Option.some.injEq] at run
            rw [← run] at member
            exact (placed (List.mem_of_mem_eraseIdx member)).imp_left before

theorem partitionLoop_tokens (special : SpecialToken) : ∀ (fuel : Nat) (buffer : List Fragment)
    (it : Nat) (result : List Fragment), partitionLoop raw special fuel buffer it = some result →
    ∀ id, .token id ∈ result → .token id ∈ buffer ∨ id = special.id := by
  intro fuel
  induction fuel with
  | zero => intro buffer it result run; cases run
  | succ fuel ih =>
      intro buffer it result run id member
      rw [partitionLoop] at run
      split at run
      · cases run
        exact Or.inl member
      · exact ih _ _ _ run id member
      · split at run
        · cases run
        · rename_i split
          rcases ih _ _ _ run id member with old | same
          · exact splitLoop_tokens special _ _ _ _ _ _ split id old
          · exact Or.inr same

theorem tokenizerStPartition_tokens (parseSpecial : Bool) : ∀ (ids : List Nat)
    (buffer result : List Fragment),
    tokenizerStPartition vocab raw parseSpecial ids buffer = some result →
    ∀ id, .token id ∈ result → .token id ∈ buffer ∨ id ∈ ids := by
  intro ids
  induction ids with
  | nil => intro buffer result run id member; cases run; exact Or.inl member
  | cons head rest ih =>
      intro buffer result run id member
      rw [tokenizerStPartition] at run
      split at run
      · exact (ih _ _ run id member).imp_right (List.mem_cons_of_mem head)
      · split at run
        · cases run
        · rename_i special known
          split at run
          · cases run
          · rename_i buffer' loop
            rcases ih _ _ run id member with old | later
            · rcases partitionLoop_tokens special _ _ _ _ loop id old with before | same
              · exact Or.inl before
              · obtain ⟨token, _, rfl⟩ := Option.map_eq_some_iff.mp known
                exact Or.inr (by simp [same])
            · exact Or.inr (List.mem_cons_of_mem head later)

theorem partitionText_tokens {cache : SpecialCache vocab} {parseSpecial : Bool}
    {fragments : List Fragment} (run : partitionText vocab cache raw parseSpecial = some fragments)
    {id : Nat} (member : .token id ∈ fragments) : id ∈ cache.ids := by
  unfold partitionText at run
  split_ifs at run
  · cases run
    cases member
  · rcases tokenizerStPartition_tokens parseSpecial _ _ _ run id member with text | among
    · simp at text
    · exact among

/-- What a fragment reads as, a token as its own text. -/
def fragmentText (vocab : LlamaVocab S) (raw : Bytes) : Fragment → Bytes
  | .rawText offset length => (raw.drop offset).take length
  | .token id => vocab.tokenText id

/-- No token asks for the blanks beside it. -/
def NoStrip (vocab : LlamaVocab S) : Prop :=
  ∀ id special, vocab.specialToken id = some special →
    special.lstrip = false ∧ special.rstrip = false

theorem specialToken_text {id : Nat} {special : SpecialToken}
    (known : vocab.specialToken id = some special) :
    special.id = id ∧ vocab.tokenText id = special.text := by
  obtain ⟨token, here, rfl⟩ := Option.map_eq_some_iff.mp known
  exact ⟨rfl, by rw [LlamaVocab.tokenText, here]⟩

theorem Covers.bounds {a e : Nat} {fragments : List Fragment}
    (covers : Covers vocab raw a fragments e) : ∀ offset length,
    .rawText offset length ∈ fragments → a ≤ offset ∧ 0 < length ∧ offset + length ≤ e := by
  induction covers with
  | done a => intro offset length member; cases member
  | text nonempty later ih =>
      intro offset length member
      have on := later.le
      rcases List.mem_cons.mp member with same | member
      · cases same
        exact ⟨Nat.le_refl _, nonempty, on⟩
      · have inside := ih offset length member
        omega
  | token known before onLeft stands after onRight later ih =>
      intro offset length member
      have inside := ih offset length (by simpa using member)
      have up := before.1
      have on := after.1
      omega

theorem Covers.spells (noStrip : NoStrip vocab) {a e : Nat} {fragments : List Fragment}
    (covers : Covers vocab raw a fragments e) :
    fragments.flatMap (fragmentText vocab raw) = (raw.drop a).take (e - a) := by
  induction covers with
  | done a => simp
  | @text a n e rest nonempty later ih =>
      have on := later.le
      have total : e - a = n + (e - (a + n)) := by omega
      rw [List.flatMap_cons, ih, fragmentText, total, List.take_add, List.drop_drop]
  | @token a b c e special rest known before onLeft stands after onRight later ih =>
      obtain ⟨noLeft, noRight⟩ := noStrip _ _ known
      have atLeft : a = b := by
        by_contra apart
        have up := before.1
        have strip := onLeft (by omega)
        rw [noLeft] at strip
        cases strip
      have atRight : b + special.text.length = c := by
        by_contra apart
        have on := after.1
        have strip := onRight (by omega)
        rw [noRight] at strip
        cases strip
      subst atLeft atRight
      have on := later.le
      have total : e - a = special.text.length + (e - (a + special.text.length)) := by omega
      have text : (raw.drop a).take special.text.length = special.text :=
        (List.prefix_iff_eq_take.mp stands).symm
      rw [List.flatMap_cons, ih, fragmentText, (specialToken_text known).2, total, List.take_add,
        List.drop_drop, text]

theorem partitionText_spells (noStrip : NoStrip vocab) {cache : SpecialCache vocab}
    {parseSpecial : Bool} {fragments : List Fragment}
    (run : partitionText vocab cache raw parseSpecial = some fragments) :
    fragments.flatMap (fragmentText vocab raw) = raw := by
  obtain ⟨fragments', run', covers, _⟩ := partitionText_covers cache raw parseSpecial
  rw [run, Option.some.injEq] at run'
  subst run'
  simpa using covers.spells noStrip

/-- The text always comes apart.  The fragments are inside it and not empty, as their
constructor asserts; in order they cover it, with only blanks missing; and no text fragment
holds a token that was looked for.  Where no token takes blanks, nothing is missing. -/
theorem partition_lossless (cache : SpecialCache vocab) (raw : Bytes) (parseSpecial : Bool) :
    ∃ fragments, partitionText vocab cache raw parseSpecial = some fragments ∧
      (∀ offset length, .rawText offset length ∈ fragments →
        0 < length ∧ offset + length ≤ raw.length) ∧
      Covers vocab raw 0 fragments raw.length ∧
      AllClear vocab raw parseSpecial cache.ids fragments ∧
      (NoStrip vocab → fragments.flatMap (fragmentText vocab raw) = raw) := by
  obtain ⟨fragments, run, covers, clear, _⟩ := partitionText_covers cache raw parseSpecial
  refine ⟨fragments, run, ?_, covers, clear, ?_⟩
  · intro offset length member
    exact (covers.bounds offset length member).2
  · intro noStrip
    exact partitionText_spells noStrip run

end Partition

end MineGPT.Vocab
