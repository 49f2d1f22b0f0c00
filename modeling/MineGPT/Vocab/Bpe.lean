import Mathlib.Order.OrderDual
import MineGPT.Vocab.Spm
import MineGPT.Vocab.Words

/-!
# The BPE tokenizer

`llm_tokenizer_bpe_session` merges the characters of each word, the pair with
the lowest rank in the list of merges first.  A symbol that is no token is
written byte by byte, and a byte that is no token is left out.
-/

set_option autoImplicit false

namespace MineGPT.Vocab

open MineGPT.Lib.ByteString MineGPT.Lib.Chain MineGPT.Lib.PairMerge MineGPT.Lib.MergeQueue
open MineGPT.Lib.TextSearch MineGPT.Lib.Utf8
open String (utf8EncodeChar)

variable {S σ : Type}

/-! ## The merges -/

/-- A line of the merges, cut at its first blank behind the first character. -/
def parseMerge (word : Bytes) : Bytes × Bytes :=
  match findFrom word (lit " ") 1 with
  | none => ([], [])
  | some pos => (word.take pos, word.drop (pos + 1))

/-- `bpe_ranks` keeps the first of equal merges. -/
def findBpeRank (merges : List Bytes) (left right : Bytes) : Option Nat :=
  (merges.map parseMerge).idxOf? (left, right)

structure BigramBpe where
  left : Nat
  right : Nat
  text : Bytes
  rank : Nat
  size : Nat

section Session

variable (merges : List Bytes) (word : Bytes)

def bigramBpe (left right : Nat) (leftSym rightSym : Segment) : Option BigramBpe :=
  let leftToken := leftSym.content word
  let rightToken := rightSym.content word
  match findBpeRank merges leftToken rightToken with
  | none => none
  | some rank =>
    some { left := left, right := right, text := leftToken ++ rightToken, rank := rank,
           size := leftToken.length + rightToken.length }

def bpeLess (l r : BigramBpe) : Prop := r.rank < l.rank ∨ l.rank = r.rank ∧ r.left < l.left

def bpeKey (bigram : BigramBpe) : ℕᵒᵈ ×ₗ ℕᵒᵈ :=
  toLex (OrderDual.toDual bigram.rank, OrderDual.toDual bigram.left)

def bpeQueue : PriorityQueue BigramBpe (List BigramBpe) bpeLess :=
  PriorityQueue.scan bpeKey bpeLess fun e f => by
    rw [bpeKey, bpeKey, Prod.Lex.toLex_lt_toLex]
    rfl

def bpeMerger : Merger BigramBpe where
  left := BigramBpe.left
  right := BigramBpe.right
  propose := bigramBpe merges word
  fresh bigram leftSym rightSym :=
    leftSym.content word ++ rightSym.content word == bigram.text
  less := bpeLess

end Session

/-- The texts of the symbols one word leaves; they are linked in this order. -/
def bpeWord (vocab : LlamaVocab S) (merges : List Bytes) (ignoreMerges : Bool)
    (queue : PriorityQueue BigramBpe σ bpeLess) (word : Bytes) : Option (List Bytes) :=
  let symbols :=
    if ignoreMerges && (vocab.textToToken word).isSome then ofLengths 0 0 [word.length]
    else spmSymbols word
  match mergeAll (bpeMerger merges word) queue (4 * symbols.length + 1)
      (seed (bpeMerger merges word) queue symbols) with
  | none => none
  | some s =>
    some ((s.segments.filter fun symbol => 0 < symbol.n).map (Segment.content word))

/-- The token of a symbol, or those of its bytes that are tokens. -/
def bpeEmit (vocab : LlamaVocab S) (symbol : Bytes) : List Nat :=
  match vocab.textToToken symbol with
  | some token => [token]
  | none => symbol.filterMap fun b => vocab.textToToken [b]

structure BpeTokenizer where
  tables : UnicodeTables
  regex : RegexLib
  regexExprs : List Bytes
  merges : List Bytes
  ignoreMerges : Bool

/-- `none` if an exception leaves the split. -/
def bpeTokenize (vocab : LlamaVocab S) (bpe : BpeTokenizer)
    (queue : PriorityQueue BigramBpe σ bpeLess) (text : Bytes) : Option (List Nat) := do
  let words ← unicodeRegexSplit bpe.tables bpe.regex bpe.regexExprs text
  let symbols ← words.mapM (bpeWord vocab bpe.merges bpe.ignoreMerges queue)
  return symbols.flatten.flatMap (bpeEmit vocab)

/-! ## The session as merging -/

section Lawful

variable (merges : List Bytes) (word : Bytes)

def bpeScore (a b : Bytes) : Option Natᵒᵈ := (findBpeRank merges a b).map OrderDual.toDual

theorem bigramBpe_eq (left right : Nat) (leftSym rightSym : Segment) :
    bigramBpe merges word left right leftSym rightSym =
      (findBpeRank merges (leftSym.content word) (rightSym.content word)).map fun rank =>
        { left := left, right := right, text := leftSym.content word ++ rightSym.content word,
          rank := rank,
          size := (leftSym.content word).length + (rightSym.content word).length } := by
  unfold bigramBpe
  dsimp only
  cases findBpeRank merges (leftSym.content word) (rightSym.content word) with
  | none => rfl
  | some rank => rfl

theorem bpeLawful : Lawful (bpeMerger merges word) word (bpeScore merges)
    fun bigram => OrderDual.toDual bigram.rank where
  indices proposal := by
    simp only [bpeMerger, bigramBpe_eq] at proposal
    obtain ⟨rank, _, rfl⟩ := Option.map_eq_some_iff.mp proposal
    exact ⟨rfl, rfl⟩
  scored i j adjacent := by
    simp only [bpeScore, bpeMerger, bigramBpe_eq, Option.map_map]
    rfl
  congr i j startL nL startR nR := by
    simp only [bpeMerger, bigramBpe_eq, Segment.content, startL, nL, startR, nR]
  fresh := by
    intro i j l r l' r' e adjacent proposal adjacent' startL startR
    simp only [bpeMerger, bigramBpe_eq] at proposal ⊢
    obtain ⟨rank, _, rfl⟩ := Option.map_eq_some_iff.mp proposal
    have before := adjacent.meets
    have after := adjacent'.meets
    have within := adjacent.inside
    have within' := adjacent'.inside
    have sameLeft : l'.content word = l.content word := by
      rw [Segment.content, Segment.content, startL, show l'.n = l.n by omega]
    rw [sameLeft, Bool.eq_iff_iff, beq_iff_eq, decide_eq_true_eq, List.append_cancel_left_eq]
    constructor
    · intro same
      have size := congrArg List.length same
      simp only [Segment.content, List.length_take, List.length_drop] at size
      omega
    · intro same
      rw [Segment.content, Segment.content, startR, same]
  less e f := Iff.rfl

end Lawful

/-! ## What is left of a word -/

def bpeStart (vocab : LlamaVocab S) (ignoreMerges : Bool) (word : Bytes) : List Bytes :=
  if ignoreMerges && (vocab.textToToken word).isSome then [word] else splitSymbols word

theorem bpeStart_flatten (vocab : LlamaVocab S) (ignoreMerges : Bool) (word : Bytes) :
    (bpeStart vocab ignoreMerges word).flatten = word := by
  unfold bpeStart
  split_ifs
  · simp
  · exact splitSymbols_flatten word

theorem bpeStart_ne_nil (vocab : LlamaVocab S) (ignoreMerges : Bool) (word : Bytes) :
    ∀ piece ∈ bpeStart vocab ignoreMerges word, piece ≠ [] := by
  unfold bpeStart
  split_ifs with whole
  · intro piece member empty
    rw [List.mem_singleton] at member
    simp only [Bool.and_eq_true, Option.isSome_iff_exists] at whole
    obtain ⟨_, token, known⟩ := whole
    obtain ⟨data, here, text⟩ := vocab.textToToken_iff.mp known
    exact vocab.text_ne_nil here (text.trans (member.symm.trans empty))
  · exact symbolTexts_ne_nil _ _

theorem bpeWord_pieces (vocab : LlamaVocab S) (merges : List Bytes) (ignoreMerges : Bool)
    (queue : PriorityQueue BigramBpe σ bpeLess) (word : Bytes) :
    ∃ pieces, Relation.ReflTransGen (Greedy (bpeScore merges)) (bpeStart vocab ignoreMerges word)
        pieces ∧
      Merged (bpeScore merges) pieces ∧
      bpeWord vocab merges ignoreMerges queue word = some pieces := by
  obtain ⟨final, live, run, inv, greedy, merged⟩ := mergeAll_greedy (q := queue)
    (bpeLawful merges word) (bpeStart_ne_nil vocab ignoreMerges word)
    (bpeStart_flatten vocab ignoreMerges word)
  refine ⟨_, greedy, merged, ?_⟩
  have symbols : (if ignoreMerges && (vocab.textToToken word).isSome then
      ofLengths 0 0 [word.length] else spmSymbols word) =
      ofLengths 0 0 ((bpeStart vocab ignoreMerges word).map List.length) := by
    unfold bpeStart spmSymbols
    split_ifs
    · rfl
    · rfl
  have count : (ofLengths 0 0 ((bpeStart vocab ignoreMerges word).map List.length)).length =
      (bpeStart vocab ignoreMerges word).length := by
    rw [length_ofLengths, List.length_map]
  unfold bpeWord
  simp only [symbols, count, run, inv.tiles.filter_pos, pieces, List.map_map]
  rfl

/-! ## The whole text -/

/-- What one word comes to: pieces that spell it, and that no other way of merging greedily
from the same start could end at. -/
structure WordPieces (vocab : LlamaVocab S) (bpe : BpeTokenizer) (word : Bytes)
    (pieces : List Bytes) : Prop where
  spelled : pieces.flatten = word
  greedy : Relation.ReflTransGen (Greedy (bpeScore bpe.merges))
    (bpeStart vocab bpe.ignoreMerges word) pieces
  merged : Merged (bpeScore bpe.merges) pieces
  unique : ∀ others, Relation.ReflTransGen (Greedy (bpeScore bpe.merges))
    (bpeStart vocab bpe.ignoreMerges word) others → Merged (bpeScore bpe.merges) others →
    others = pieces

theorem bpeWords_pieces (vocab : LlamaVocab S) (bpe : BpeTokenizer)
    (queue : PriorityQueue BigramBpe σ bpeLess) : ∀ words : List Bytes,
    ∃ pieces, List.Forall₂ (WordPieces vocab bpe) words pieces ∧
      words.mapM (bpeWord vocab bpe.merges bpe.ignoreMerges queue) = some pieces := by
  intro words
  induction words with
  | nil => exact ⟨[], List.Forall₂.nil, rfl⟩
  | cons word rest ih =>
      obtain ⟨pieces, each, run⟩ := ih
      obtain ⟨here, greedy, merged, first⟩ :=
        bpeWord_pieces vocab bpe.merges bpe.ignoreMerges queue word
      have good : WordPieces vocab bpe word here :=
        { spelled := (flatten_of_greedy greedy).trans (bpeStart_flatten vocab _ word)
          greedy := greedy
          merged := merged
          unique := fun others steps stop => merged_unique steps stop greedy merged }
      refine ⟨here :: pieces, List.Forall₂.cons good each, ?_⟩
      rw [List.mapM_cons, first, run]
      rfl

theorem byteEncoded_visible (bytes : Bytes) : ∀ b ∈ byteEncoded bytes, 0x21 ≤ b.toNat := by
  intro b member
  rw [byteEncoded, encode, List.mem_flatMap] at member
  obtain ⟨c, inside, here⟩ := member
  obtain ⟨byte, _, rfl⟩ := List.mem_map.mp inside
  by_contra low
  have printed : 0x21 ≤ (byteChar byte).toNat := by
    rw [byteChar_toNat]
    unfold byteToCpt printable
    split_ifs with shown
    · simp only [Bool.or_eq_true, Bool.and_eq_true, decide_eq_true_eq] at shown
      omega
    · omega
  obtain ⟨lead, tail, shape, _, each⟩ := utf8EncodeChar_shape (byteChar byte)
  rw [shape] at here
  rcases List.mem_cons.mp here with rfl | inTail
  · have decoded := unicodeCptFromUtf8_char (byteChar byte) []
    rw [shape, encode_ascii (by omega) shape] at decoded
    simp only [List.append_nil, unicodeCptFromUtf8, and_0x80] at decoded
    rw [if_pos (by omega)] at decoded
    simp only [Option.some.injEq, Prod.mk.injEq, and_true] at decoded
    omega
  · have continuation := each b inTail
    rw [continuation_iff] at continuation
    omega

section Whole

variable {vocab : LlamaVocab S} {bpe : BpeTokenizer} {text : List Char}

theorem bpeTokenize_none (queue : PriorityQueue BigramBpe σ bpeLess)
    (split : splitExprs bpe.tables bpe.regex (text.map Char.toNat) bpe.regexExprs [text.length] =
      none) :
    (∃ expr ∈ bpe.regexExprs, Refused bpe.tables bpe.regex (text.map Char.toNat) expr) ∧
      bpeTokenize vocab bpe queue (encode text) = none := by
  have stop : unicodeRegexSplit bpe.tables bpe.regex bpe.regexExprs (encode text) = none := by
    rw [unicodeRegexSplit, unicodeCptsFromUtf8_encode, List.length_map, split]
    rfl
  refine ⟨splitExprs_none split, ?_⟩
  rw [bpeTokenize, stop]
  rfl

theorem bpeTokenize_pieces {offsets : List Nat} (vocab : LlamaVocab S)
    (queue : PriorityQueue BigramBpe σ bpeLess)
    (split : splitExprs bpe.tables bpe.regex (text.map Char.toNat) bpe.regexExprs [text.length] =
      some offsets) :
    ∃ (groups : List (List Char)) (pieces : List (List Bytes)), groups.flatten = text ∧
      unicodeRegexSplit bpe.tables bpe.regex bpe.regexExprs (encode text) =
        some (groups.map fun group => byteEncoded (encode group)) ∧
      List.Forall₂ (WordPieces vocab bpe) (groups.map fun group => byteEncoded (encode group))
        pieces ∧
      bpeTokenize vocab bpe queue (encode text) =
        some (pieces.flatten.flatMap (bpeEmit vocab)) := by
  obtain ⟨groups, whole, _, run⟩ := unicodeRegexSplit_of_offsets split
  obtain ⟨pieces, each, merged⟩ := bpeWords_pieces vocab bpe queue
    (groups.map fun group => byteEncoded (encode group))
  refine ⟨groups, pieces, whole, run, each, ?_⟩
  rw [bpeTokenize, run]
  simp only [Option.bind_eq_bind, Option.bind_some, merged]
  rfl

end Whole

/-- Unless an expression is refused, every text is taken apart as the merges say, whatever the
queue does with pairs of one rank, and the assertions of `find_bpe_rank` hold of every pair it looks up. -/
theorem bpeTokenize_greedy (vocab : LlamaVocab S) (bpe : BpeTokenizer)
    (queue : PriorityQueue BigramBpe σ bpeLess) (text : List Char) :
    (∃ expr ∈ bpe.regexExprs, Refused bpe.tables bpe.regex (text.map Char.toNat) expr) ∧
        bpeTokenize vocab bpe queue (encode text) = none ∨
      ∃ words pieces,
        unicodeRegexSplit bpe.tables bpe.regex bpe.regexExprs (encode text) = some words ∧
        List.Forall₂ (WordPieces vocab bpe) words pieces ∧
        bpeTokenize vocab bpe queue (encode text) =
          some (pieces.flatten.flatMap (bpeEmit vocab)) ∧
        ∀ word ∈ words, ∀ symbol : Segment, ∀ b ∈ symbol.content word, b ≠ 0x20 ∧ b ≠ 0x0a := by
  cases split : splitExprs bpe.tables bpe.regex (text.map Char.toNat) bpe.regexExprs
      [text.length] with
  | none => exact Or.inl (bpeTokenize_none queue split)
  | some offsets =>
      obtain ⟨groups, pieces, _, run, each, tokens⟩ := bpeTokenize_pieces vocab queue split
      refine Or.inr ⟨_, pieces, run, each, tokens, ?_⟩
      intro word member symbol b inside
      obtain ⟨group, _, rfl⟩ := List.mem_map.mp member
      have among := List.mem_of_mem_drop (List.mem_of_mem_take inside)
      have visible := byteEncoded_visible _ b among
      constructor
      · rintro rfl
        exact absurd visible (by decide)
      · rintro rfl
        exact absurd visible (by decide)

end MineGPT.Vocab
