import Mathlib.Data.Prod.Lex
import Mathlib.Order.OrderDual
import MineGPT.Lib.MergeQueue
import MineGPT.Lib.Utf8Forms
import MineGPT.Vocab.Tokens

/-!
# The SPM tokenizer

`llm_tokenizer_spm_session` cuts a text into characters and merges neighbours
that make a token, the one with the best score first.  What is left is looked up
in the vocabulary, and written byte by byte where it is no token.
-/

set_option autoImplicit false

namespace MineGPT.Vocab

open MineGPT.Lib.ByteString MineGPT.Lib.Chain MineGPT.Lib.PairMerge MineGPT.Lib.MergeQueue
open MineGPT.Lib.Utf8
open String (utf8EncodeChar)

variable {S σ : Type}

/-- `lookup[highbits]` -/
def unicodeLenUtf8 (src : UInt8) : Nat :=
  [1, 1, 1, 1, 1, 1, 1, 1, 1, 1, 1, 1, 2, 2, 3, 4].getD (src.toNat / 16) 1

/-- The texts of the first symbols, the last of them cut off at the end of the text. -/
def symbolTexts : Nat → Bytes → List Bytes
  | 0, _ => []
  | _, [] => []
  | fuel + 1, b :: rest =>
    (b :: rest).take (unicodeLenUtf8 b) ::
      symbolTexts fuel ((b :: rest).drop (unicodeLenUtf8 b))

def splitSymbols (text : Bytes) : List Bytes := symbolTexts text.length text

/-- `llm_bigram_spm`, with the text under which `rev_merge` keeps the pair. -/
structure BigramSpm (S : Type) where
  left : Nat
  right : Nat
  score : S
  size : Nat
  text : Bytes

inductive TokenizeError where
  /-- `std::out_of_range`, thrown by `token_to_id.at` -/
  | outOfRange
  /-- the first symbol of an empty text -/
  | noSymbol
  /-- `std::regex_error`, thrown by `unicode_regex_split` -/
  | regexError
  /-- the assertion that there is a token for the start or the end -/
  | noSpecialId
  | outOfFuel
  deriving DecidableEq, Repr

section Session

variable [LinearOrder S] (vocab : LlamaVocab S) (text : Bytes)

def bigramSpm (left right : Nat) (leftSym rightSym : Segment) : Option (BigramSpm S) :=
  let merged := (text.drop leftSym.start).take (leftSym.n + rightSym.n)
  match vocab.textToToken merged with
  | none => none
  | some token =>
    if vocab.nTokens ≤ token then none
    else
      (vocab.getTokenData token).map fun data =>
        { left := left, right := right, score := data.score, size := leftSym.n + rightSym.n,
          text := merged }

def spmLess (l r : BigramSpm S) : Prop := l.score < r.score ∨ l.score = r.score ∧ r.left < l.left

def spmKey (bigram : BigramSpm S) : S ×ₗ ℕᵒᵈ := toLex (bigram.score, OrderDual.toDual bigram.left)

def spmQueue : PriorityQueue (BigramSpm S) (List (BigramSpm S)) spmLess :=
  PriorityQueue.scan spmKey spmLess fun e f => by
    rw [spmKey, spmKey, Prod.Lex.toLex_lt_toLex]
    rfl

def spmMerger : Merger (BigramSpm S) where
  left := BigramSpm.left
  right := BigramSpm.right
  propose := bigramSpm vocab text
  fresh bigram leftSym rightSym := leftSym.n + rightSym.n == bigram.size
  less := spmLess

/-- `<0xAB>` if it is a token, else the byte as a C string. -/
def hexDigit (n : Nat) : UInt8 := (lit "0123456789ABCDEF").getD n 0

def byteText (ch : UInt8) : Bytes :=
  lit "<0x" ++ [hexDigit (ch.toNat / 16), hexDigit (ch.toNat % 16)] ++ lit ">"

def spmByteToToken (ch : UInt8) : Except TokenizeError Nat :=
  match vocab.textToToken (byteText ch) with
  | some token => .ok token
  | none =>
    match vocab.textToToken (cstr [ch]) with
    | some token => .ok token
    | none => .error .outOfRange

/-- `rev_merge`: the pair that was pushed last for a text. -/
def revMerge (pushed : List (BigramSpm S)) (key : Bytes) : Option (Nat × Nat) :=
  (pushed.find? fun bigram => bigram.text = key).map fun bigram => (bigram.left, bigram.right)

def resegment (s : State (BigramSpm S) σ) : Nat → Segment → Except TokenizeError (List Nat)
  | 0, _ => .error .outOfFuel
  | fuel + 1, symbol =>
    match vocab.textToToken (symbol.content text) with
    | some token => .ok [token]
    | none =>
      match revMerge s.pushed (symbol.content text) with
      | none => (symbol.content text).mapM (spmByteToToken vocab)
      | some (left, right) => do
        let first ← resegment s fuel (segmentAt s.segments left)
        let second ← resegment s fuel (segmentAt s.segments right)
        return first ++ second

def spmSymbols : List Segment := ofLengths 0 0 ((splitSymbols text).map List.length)

/-- What the session appends to the output. -/
def spmTokenize (queue : PriorityQueue (BigramSpm S) σ spmLess) :
    Except TokenizeError (List Nat) :=
  let symbols := spmSymbols text
  match mergeAll (spmMerger vocab text) queue (4 * symbols.length + 1)
      (seed (spmMerger vocab text) queue symbols) with
  | none => .error .outOfFuel
  | some s =>
    if s.segments = [] then .error .noSymbol
    else do
      let outputs ← (walk s.segments s.segments.length 0).mapM
        (resegment vocab text s (s.segments.length + 1))
      return outputs.flatten

end Session

/-! ## The symbols -/

theorem unicodeLenUtf8_pos (b : UInt8) : 0 < unicodeLenUtf8 b := by
  have all : ∀ i < 16, 0 < [1, 1, 1, 1, 1, 1, 1, 1, 1, 1, 1, 1, 2, 2, 3, 4].getD i 1 := by decide
  have small := b.toNat_lt
  exact all (b.toNat / 16) (by omega)

theorem symbolTexts_flatten : ∀ (fuel : Nat) (text : Bytes), text.length ≤ fuel →
    (symbolTexts fuel text).flatten = text := by
  intro fuel
  induction fuel with
  | zero =>
      intro text short
      rw [List.eq_nil_of_length_eq_zero (Nat.le_zero.mp short)]
      rfl
  | succ fuel ih =>
      intro text short
      cases text with
      | nil => rfl
      | cons b rest =>
          have positive := unicodeLenUtf8_pos b
          rw [symbolTexts, List.flatten_cons, ih _ (by
            rw [List.length_drop]
            simp only [List.length_cons] at short ⊢
            omega)]
          exact List.take_append_drop _ _

theorem symbolTexts_ne_nil : ∀ (fuel : Nat) (text : Bytes), ∀ piece ∈ symbolTexts fuel text,
    piece ≠ [] := by
  intro fuel
  induction fuel with
  | zero => intro text piece member; cases member
  | succ fuel ih =>
      intro text piece member
      cases text with
      | nil => cases member
      | cons b rest =>
          rcases List.mem_cons.mp member with rfl | member
          · have positive := unicodeLenUtf8_pos b
            intro empty
            rcases List.take_eq_nil_iff.mp empty with none | none
            · omega
            · cases none
          · exact ih _ piece member

theorem unicodeLenUtf8_lead {lead : UInt8} {n : Nat} (announces : Lead lead n) :
    unicodeLenUtf8 lead = n := by
  have table : ∀ i < 16, ∀ len ∈ [1, 2, 3, 4], [0, 0xC, 0xE, 0xF].getD (len - 1) 0 ≤ i →
      i < [8, 0xE, 0xF, 0x10].getD (len - 1) 0 →
      [1, 1, 1, 1, 1, 1, 1, 1, 1, 1, 1, 1, 2, 2, 3, 4].getD i 1 = len := by decide
  have small := lead.toNat_lt
  match n, announces with
  | 1, one =>
      have range := (lead_one_iff lead).mp one
      exact table (lead.toNat / 16) (by omega) 1 (by simp) (by simp) (by simp; omega)
  | 2, two =>
      have range := (lead_two_iff lead).mp two
      exact table (lead.toNat / 16) (by omega) 2 (by simp) (by simp; omega) (by simp; omega)
  | 3, three =>
      have range := (lead_three_iff lead).mp three
      exact table (lead.toNat / 16) (by omega) 3 (by simp) (by simp; omega) (by simp; omega)
  | 4, four =>
      have range := (lead_four_iff lead).mp four
      exact table (lead.toNat / 16) (by omega) 4 (by simp) (by simp; omega) (by simp; omega)

theorem symbolTexts_encode : ∀ (text : List Char) (fuel : Nat), (encode text).length ≤ fuel →
    symbolTexts fuel (encode text) = text.map utf8EncodeChar := by
  intro text
  induction text with
  | nil =>
      intro fuel _
      cases fuel with
      | zero => rfl
      | succ fuel => rfl
  | cons c text ih =>
      intro fuel enough
      obtain ⟨lead, tail, shape, announces, _⟩ := utf8EncodeChar_shape c
      rw [encode_cons, List.length_append, shape, List.length_cons] at enough
      obtain ⟨fuel, rfl⟩ : ∃ k, fuel = k + 1 := ⟨fuel - 1, by omega⟩
      have bytes : encode (c :: text) = lead :: (tail ++ encode text) := by
        rw [encode_cons, shape, List.cons_append]
      rw [bytes, symbolTexts, unicodeLenUtf8_lead announces, ← List.cons_append, List.map_cons,
        shape, List.take_left' (by simp), List.drop_left' (by simp), ih fuel (by omega)]

theorem splitSymbols_encode (text : List Char) :
    splitSymbols (encode text) = text.map utf8EncodeChar :=
  symbolTexts_encode text _ (Nat.le_refl _)

/-! ## The session as merging -/

section Lawful

variable (vocab : LlamaVocab S) (text : Bytes)

def spmScore (a b : Bytes) : Option S :=
  ((vocab.textToToken (a ++ b)).bind vocab.getTokenData).map TokenData.score

theorem bigramSpm_eq (left right : Nat) (leftSym rightSym : Segment) :
    bigramSpm vocab text left right leftSym rightSym =
      ((vocab.textToToken ((text.drop leftSym.start).take (leftSym.n + rightSym.n))).bind
        vocab.getTokenData).map fun data =>
          { left := left, right := right, score := data.score, size := leftSym.n + rightSym.n,
            text := (text.drop leftSym.start).take (leftSym.n + rightSym.n) } := by
  unfold bigramSpm
  dsimp only
  cases known : vocab.textToToken ((text.drop leftSym.start).take (leftSym.n + rightSym.n)) with
  | none => rfl
  | some token =>
      have inside := Nat.not_le.mpr (vocab.textToToken_lt known)
      simp only [inside, if_false, Option.bind_some]

theorem spmLawful [LinearOrder S] : Lawful (spmMerger vocab text) text (spmScore vocab) BigramSpm.score where
  indices proposal := by
    simp only [spmMerger, bigramSpm_eq] at proposal
    obtain ⟨data, _, rfl⟩ := Option.map_eq_some_iff.mp proposal
    exact ⟨rfl, rfl⟩
  scored i j adjacent := by
    rename_i l r
    have both : l.content text ++ r.content text = (text.drop l.start).take (l.n + r.n) := by
      rw [Segment.content, Segment.content, List.take_add, List.drop_drop, adjacent.meets]
    simp only [spmScore, spmMerger, bigramSpm_eq, both, Option.map_map]
    rfl
  congr i j startL nL startR nR := by
    simp only [spmMerger, bigramSpm_eq, startL, nL, nR]
  fresh := by
    intro i j l r l' r' e adjacent proposal adjacent' startL startR
    simp only [spmMerger, bigramSpm_eq] at proposal ⊢
    obtain ⟨data, _, rfl⟩ := Option.map_eq_some_iff.mp proposal
    have before := adjacent.meets
    have after := adjacent'.meets
    have sameLeft : l'.n = l.n := by omega
    rw [sameLeft, Bool.eq_iff_iff]
    simp
  less e f := Iff.rfl

end Lawful

/-! ## What comes out -/

section Output

variable {vocab : LlamaVocab S} {text : Bytes}

def emitPiece (vocab : LlamaVocab S) (piece : Bytes) : Except TokenizeError (List Nat) :=
  match vocab.textToToken piece with
  | some token => .ok [token]
  | none => piece.mapM (spmByteToToken vocab)

def emitPieces (vocab : LlamaVocab S) (pieces : List Bytes) : Except TokenizeError (List Nat) := do
  let outputs ← pieces.mapM (emitPiece vocab)
  return outputs.flatten

/-- Every text in `rev_merge` is a token, so that `resegment` never gets to look there. -/
theorem revMerge_eq_none {pushed : List (BigramSpm S)} {key : Bytes}
    (tokens : ∀ bigram ∈ pushed, vocab.textToToken bigram.text ≠ none)
    (unknown : vocab.textToToken key = none) : revMerge pushed key = none := by
  rw [revMerge, Option.map_eq_none_iff, List.find?_eq_none]
  intro bigram member same
  have equal : bigram.text = key := of_decide_eq_true same
  exact tokens bigram member (equal ▸ unknown)

theorem resegment_eq {s : State (BigramSpm S) σ}
    (tokens : ∀ bigram ∈ s.pushed, vocab.textToToken bigram.text ≠ none) (fuel : Nat)
    (symbol : Segment) :
    resegment vocab text s (fuel + 1) symbol = emitPiece vocab (symbol.content text) := by
  rw [resegment, emitPiece]
  cases known : vocab.textToToken (symbol.content text) with
  | some token => rfl
  | none => simp only [revMerge_eq_none tokens known]

theorem pushed_tokens [LinearOrder S] {pushed : List (BigramSpm S)}
    (proposed : ∀ e ∈ pushed, ∃ i j l r, Adjacent text.length l r ∧
      (spmMerger vocab text).propose i j l r = some e) :
    ∀ bigram ∈ pushed, vocab.textToToken bigram.text ≠ none := by
  intro bigram member unknown
  obtain ⟨i, j, l, r, _, proposal⟩ := proposed bigram member
  simp only [spmMerger, bigramSpm_eq] at proposal
  obtain ⟨data, found, rfl⟩ := Option.map_eq_some_iff.mp proposal
  simp only at unknown
  rw [unknown] at found
  cases found

theorem splitSymbols_flatten (text : Bytes) : (splitSymbols text).flatten = text :=
  symbolTexts_flatten text.length text (Nat.le_refl _)

theorem spmTokenize_pieces [LinearOrder S]
    (queue : PriorityQueue (BigramSpm S) σ spmLess) (nonempty : text ≠ []) :
    ∃ pieces, Relation.ReflTransGen (Greedy (spmScore vocab)) (splitSymbols text) pieces ∧
      Merged (spmScore vocab) pieces ∧
      spmTokenize vocab text queue = emitPieces vocab pieces := by
  obtain ⟨final, live, run, inv, greedy, merged⟩ := mergeAll_greedy (q := queue)
    (spmLawful vocab text) (symbolTexts_ne_nil _ _) (splitSymbols_flatten text)
  refine ⟨_, greedy, merged, ?_⟩
  have spelled : (pieces text live final).flatten = text :=
    (flatten_of_greedy greedy).trans (splitSymbols_flatten text)
  have some_live : live ≠ [] := by
    rintro rfl
    exact nonempty spelled.symm
  have first : nextOf live = 0 := by
    cases live with
    | nil => exact absurd rfl some_live
    | cons i rest =>
        rw [inv.tiles.first i rest rfl]
        rfl
  have hasSegments : final.segments ≠ [] := by
    intro none
    have short := inv.tiles.length_le
    rw [none] at short
    exact some_live (List.eq_nil_of_length_eq_zero (Nat.le_zero.mp short))
  have visited := walk_linked inv.tiles.linked inv.tiles.length_le
  rw [first] at visited
  have written : ∀ symbol, resegment vocab text final (final.segments.length + 1) symbol =
      emitPiece vocab (symbol.content text) :=
    resegment_eq (pushed_tokens inv.proposed) final.segments.length
  have count : (spmSymbols text).length = (splitSymbols text).length := by
    rw [spmSymbols, length_ofLengths, List.length_map]
  have merges : mergeAll (spmMerger vocab text) queue (4 * (spmSymbols text).length + 1)
      (seed (spmMerger vocab text) queue (spmSymbols text)) = some final := by
    rw [count]
    exact run
  unfold spmTokenize
  simp only [merges, if_neg hasSegments, visited, funext written, emitPieces, pieces,
    List.mapM_map]
  rfl

/-- The tokens are the ones of the pieces that greedy merging leaves, whatever the queue
does with pairs of one score.  The pieces spell the text, and the loops come to an end. -/
theorem spmTokenize_greedy [LinearOrder S]
    (queue : PriorityQueue (BigramSpm S) σ spmLess) (nonempty : text ≠ []) :
    ∃ pieces : List Bytes, pieces.flatten = text ∧
      Relation.ReflTransGen (Greedy (spmScore vocab)) (splitSymbols text) pieces ∧
      Merged (spmScore vocab) pieces ∧
      (∀ others, Relation.ReflTransGen (Greedy (spmScore vocab)) (splitSymbols text) others →
        Merged (spmScore vocab) others → others = pieces) ∧
      spmTokenize vocab text queue = emitPieces vocab pieces := by
  obtain ⟨pieces, greedy, merged, run⟩ := spmTokenize_pieces queue nonempty
  refine ⟨pieces, ?_, greedy, merged, ?_, run⟩
  · rw [flatten_of_greedy greedy, splitSymbols_flatten]
  · intro others steps stop
    exact merged_unique steps stop greedy merged

def letterVocab : LlamaVocab Int where
  idToToken := [("a", 0), ("b", 0), ("ab", 1)].map fun entry =>
    { text := lit entry.1, score := entry.2, attr := attrNormal }
  distinct := by decide
  nonempty := by decide

theorem spmTokenize_greedy_letters : ∃ pieces : List Bytes, pieces.flatten = lit "abab" ∧
    Merged (spmScore letterVocab) pieces ∧
    spmTokenize letterVocab (lit "abab") spmQueue = emitPieces letterVocab pieces := by
  obtain ⟨pieces, spelled, _, merged, _, run⟩ :=
    @spmTokenize_greedy Int (List (BigramSpm Int)) letterVocab (lit "abab") _ spmQueue (by decide)
  exact ⟨pieces, spelled, merged, run⟩

end Output

/-! ## Without an exception -/

/-- No byte makes `byte_to_token` throw. -/
def ByteTokens (vocab : LlamaVocab S) : Prop := ∀ b, ∃ token, spmByteToToken vocab b = .ok token

theorem mapM_returns {α β ε : Type} {f : α → Except ε β} (each : ∀ x, ∃ y, f x = .ok y) :
    ∀ xs : List α, ∃ ys, xs.mapM f = .ok ys := by
  intro xs
  induction xs with
  | nil => exact ⟨[], rfl⟩
  | cons x rest ih =>
      obtain ⟨y, first⟩ := each x
      obtain ⟨ys, later⟩ := ih
      refine ⟨y :: ys, ?_⟩
      rw [List.mapM_cons, first, later]
      rfl

theorem emitPiece_ok {vocab : LlamaVocab S} (bytes : ByteTokens vocab) (piece : Bytes) :
    ∃ tokens, emitPiece vocab piece = .ok tokens := by
  unfold emitPiece
  cases vocab.textToToken piece with
  | some token => exact ⟨[token], rfl⟩
  | none => exact mapM_returns bytes piece

theorem emitPieces_ok {vocab : LlamaVocab S} (bytes : ByteTokens vocab) (pieces : List Bytes) :
    ∃ tokens, emitPieces vocab pieces = .ok tokens := by
  obtain ⟨outputs, run⟩ := mapM_returns (emitPiece_ok bytes) pieces
  refine ⟨outputs.flatten, ?_⟩
  rw [emitPieces, run]
  rfl

end MineGPT.Vocab
