import MineGPT.Vocab.Bpe
import MineGPT.Vocab.Tokenize

/-!
# A BPE text comes back

The words are cut into pieces of the byte alphabet, each of them a token, and
reading a token takes its text out of the alphabet again.
-/

set_option autoImplicit false

namespace MineGPT.Vocab

open MineGPT.Lib.ByteString MineGPT.Lib.Utf8 MineGPT.Lib.MergeQueue MineGPT.Lib.PairMerge
open String (utf8EncodeChar)

variable {S σ : Type}

/-! ## The alphabet -/

@[simp] theorem byteEncoded_nil : byteEncoded [] = [] := rfl

@[simp] theorem byteEncoded_append (first second : Bytes) :
    byteEncoded (first ++ second) = byteEncoded first ++ byteEncoded second := by
  rw [byteEncoded, List.map_append, encode_append]
  rfl

theorem byteEncoded_injective : Function.Injective byteEncoded := by
  intro first second same
  exact List.map_injective_iff.mpr byteChar_injective (encode_injective same)

theorem decodeText_byteEncoded (bytes : Bytes) : decodeText (byteEncoded bytes) = some bytes := by
  have each : ∀ (text : Bytes) (rest : Bytes),
      decodeCpts text ((rest.map byteChar).map Char.toNat) = some rest := by
    intro text rest
    induction rest with
    | nil => rfl
    | cons b rest ih =>
        rw [List.map_cons, List.map_cons, decodeCpts, unicodeCptToUtf8_char, ih]
        simp only [Option.bind_eq_bind, Option.bind_some, unicodeUtf8ToByte_byteChar]
        rfl
  rw [decodeText, byteEncoded, unicodeCptsFromUtf8_encode]
  exact each _ bytes

theorem decodeText_valid {text : Bytes} (valid : Valid text) : decodeText text ≠ none := by
  obtain ⟨chars, rfl⟩ := valid
  have each : ∀ (text : Bytes) (rest : List Char),
      decodeCpts text (rest.map Char.toNat) ≠ none := by
    intro text rest
    induction rest with
    | nil => exact Option.some_ne_none _
    | cons c rest ih =>
        obtain ⟨later, some⟩ := Option.ne_none_iff_exists'.mp ih
        rw [List.map_cons, decodeCpts, unicodeCptToUtf8_char, some]
        simp only [Option.bind_eq_bind, Option.bind_some]
        cases unicodeUtf8ToByte (utf8EncodeChar c) with
        | none => exact Option.some_ne_none _
        | some byte => exact Option.some_ne_none _
  rw [decodeText, unicodeCptsFromUtf8_encode]
  exact each _ chars

/-! ## Pieces and their tokens -/

/-- What a session can leave: a letter of the alphabet, the result of a merge, or a whole word. -/
def Emitted (vocab : LlamaVocab S) (bpe : BpeTokenizer) (piece : Bytes) : Prop :=
  (∃ b, piece = byteEncoded [b]) ∨
    (∃ left right, findBpeRank bpe.merges left right ≠ none ∧ piece = left ++ right) ∨
    bpe.ignoreMerges = true ∧ vocab.textToToken piece ≠ none

/-- Letters and results of merges are tokens.  The tokens a session can leave are normal ones, or
special ones whose text is the same in the alphabet. -/
structure BpeComplete (vocab : LlamaVocab S) (bpe : BpeTokenizer) : Prop
    extends PlainTexts vocab where
  letters : ∀ b, vocab.textToToken (byteEncoded [b]) ≠ none
  merges : ∀ left right, findBpeRank bpe.merges left right ≠ none →
    vocab.textToToken (left ++ right) ≠ none
  kinds : ∀ token ∈ vocab.idToToken, Emitted vocab bpe token.text →
    token.isNormal = true ∨
      token.special = true ∧ ∀ bytes, token.text = byteEncoded bytes → token.text = bytes

section Pieces

variable {vocab : LlamaVocab S} {bpe : BpeTokenizer}

theorem bpeEmit_reads (complete : BpeComplete vocab bpe) {bytes : Bytes}
    (emitted : Emitted vocab bpe (byteEncoded bytes)) :
    Reads .bpe vocab (bpeEmit vocab (byteEncoded bytes)) bytes := by
  have known : vocab.textToToken (byteEncoded bytes) ≠ none := by
    rcases emitted with ⟨b, letter⟩ | ⟨left, right, ranked, joined⟩ | ⟨_, whole⟩
    · rw [letter]
      exact complete.letters b
    · rw [joined]
      exact complete.merges left right ranked
    · exact whole
  obtain ⟨id, known⟩ := Option.ne_none_iff_exists'.mp known
  obtain ⟨token, here, text⟩ := vocab.textToToken_iff.mp known
  have reads : pieceOf .bpe vocab id true = some bytes := by
    rw [pieceOf_here here]
    rcases complete.kinds token (List.mem_of_getElem? here) (text ▸ emitted) with
      normal | ⟨special, same⟩
    · simp only [TokenData.isNormal, Bool.and_eq_true, Bool.not_eq_true'] at normal
      rw [pieceText_bpe normal.1, text]
      simp only [normal.2, if_true, decodeText_byteEncoded]
    · rw [pieceText_special (by decide) special, same bytes text]
  rw [bpeEmit, known]
  simpa using Reads.cons reads Reads.nil

theorem bpeEmits_reads (complete : BpeComplete vocab bpe) : ∀ pieces : List Bytes,
    (∀ piece ∈ pieces, ∃ bytes, piece = byteEncoded bytes ∧ Emitted vocab bpe piece) →
    ∃ bytes, pieces.flatten = byteEncoded bytes ∧
      Reads .bpe vocab (pieces.flatMap (bpeEmit vocab)) bytes := by
  intro pieces
  induction pieces with
  | nil => intro _; exact ⟨[], rfl, Reads.nil⟩
  | cons piece rest ih =>
      intro each
      obtain ⟨bytes, rfl, emitted⟩ := each piece (by simp)
      obtain ⟨more, spelled, reads⟩ := ih fun p member => each p (by simp [member])
      refine ⟨bytes ++ more, ?_, ?_⟩
      · rw [List.flatten_cons, spelled, byteEncoded_append]
      · rw [List.flatMap_cons]
        exact (bpeEmit_reads complete emitted).append reads

theorem wordPieces_emitted {bytes : Bytes} {pieces : List Bytes}
    (word : WordPieces vocab bpe (byteEncoded bytes) pieces) :
    ∀ piece ∈ pieces, ∃ bytes, piece = byteEncoded bytes ∧ Emitted vocab bpe piece := by
  refine forall_of_greedy ?_ word.greedy ?_
  · rintro _ _ rank ranked ⟨first, rfl, _⟩ ⟨second, rfl, _⟩
    refine ⟨first ++ second, (byteEncoded_append first second).symm, Or.inr (Or.inl
      ⟨_, _, ?_, rfl⟩)⟩
    intro unranked
    rw [bpeScore, unranked] at ranked
    cases ranked
  · intro piece member
    unfold bpeStart at member
    split_ifs at member with whole
    · rw [List.mem_singleton] at member
      simp only [Bool.and_eq_true, Option.isSome_iff_ne_none] at whole
      rw [member]
      exact ⟨bytes, rfl, Or.inr (Or.inr whole)⟩
    · rw [byteEncoded, splitSymbols_encode] at member
      obtain ⟨c, among, rfl⟩ := List.mem_map.mp member
      obtain ⟨b, _, rfl⟩ := List.mem_map.mp among
      have letter : utf8EncodeChar (byteChar b) = byteEncoded [b] := by simp [byteEncoded]
      exact ⟨[b], letter, Or.inl ⟨b, letter⟩⟩

theorem wordsPieces_emitted : ∀ (groups : List (List Char)) (pieces : List (List Bytes)),
    List.Forall₂ (WordPieces vocab bpe) (groups.map fun group => byteEncoded (encode group))
      pieces →
    pieces.flatten.flatten = byteEncoded (encode groups.flatten) ∧
      ∀ piece ∈ pieces.flatten, ∃ bytes, piece = byteEncoded bytes ∧ Emitted vocab bpe piece := by
  intro groups
  induction groups with
  | nil =>
      intro pieces each
      cases each
      exact ⟨rfl, fun piece member => by cases member⟩
  | cons group rest ih =>
      intro pieces each
      cases each with
      | @cons _ word _ words first later =>
          obtain ⟨spelled, emitted⟩ := ih words later
          constructor
          · rw [List.flatten_cons, List.flatten_append, spelled, first.spelled, List.flatten_cons,
              encode_append, byteEncoded_append]
          · intro piece member
            rw [List.flatten_cons, List.mem_append] at member
            rcases member with here | among
            · exact wordPieces_emitted first piece here
            · exact emitted piece among

theorem bpeTokenize_reads (complete : BpeComplete vocab bpe)
    (queue : PriorityQueue BigramBpe σ bpeLess) {text : List Char} {tokens : List Nat}
    (tokenized : bpeTokenize vocab bpe queue (encode text) = some tokens) :
    Reads .bpe vocab tokens (encode text) := by
  cases split : splitExprs bpe.tables bpe.regex (text.map Char.toNat) bpe.regexExprs
      [text.length] with
  | none =>
      rw [(bpeTokenize_none queue split).2] at tokenized
      cases tokenized
  | some offsets =>
      obtain ⟨groups, pieces, whole, _, each, run⟩ := bpeTokenize_pieces vocab queue split
      obtain ⟨spelled, emitted⟩ := wordsPieces_emitted groups pieces each
      obtain ⟨bytes, same, reads⟩ := bpeEmits_reads complete _ emitted
      rw [tokenized, Option.some.injEq] at run
      rw [spelled, whole] at same
      rw [run, byteEncoded_injective same]
      exact reads

end Pieces

/-! ## The whole text -/

section Whole

variable {vocab : LlamaVocab S} {bpe : BpeTokenizer} {special : SpecialCache vocab}
  {text : List Char}

theorem BpeComplete.pieceText (complete : BpeComplete vocab bpe) {token : TokenData S}
    (member : token ∈ vocab.idToToken) : pieceText .bpe token ≠ none := by
  cases plain : token.special with
  | true =>
      rw [pieceText_special (by decide) plain]
      exact Option.some_ne_none _
  | false =>
      rw [pieceText_bpe plain]
      split_ifs
      · exact decodeText_valid (complete.valid token member)
      · exact Option.some_ne_none _

theorem bpeSession_ok (queue : PriorityQueue BigramBpe σ bpeLess) (prev : Bool) {part : List Char}
    (compiled : ∀ expr ∈ bpe.regexExprs,
      ¬ Refused bpe.tables bpe.regex (part.map Char.toNat) expr) :
    ∃ tokens, bpeSession vocab bpe queue prev (encode part) = .ok tokens := by
  unfold bpeSession
  cases split : splitExprs bpe.tables bpe.regex (part.map Char.toNat) bpe.regexExprs
      [part.length] with
  | none =>
      obtain ⟨expr, member, refused⟩ := splitExprs_none split
      exact absurd refused (compiled expr member)
  | some offsets =>
      obtain ⟨_, _, _, _, _, run⟩ := bpeTokenize_pieces vocab queue split
      rw [run]
      exact ⟨_, rfl⟩

theorem bpeSession_reads (complete : BpeComplete vocab bpe)
    {queue : PriorityQueue BigramBpe σ bpeLess} {prev : Bool} {part : List Char}
    {output : List Nat} (runs : bpeSession vocab bpe queue prev (encode part) = .ok output) :
    Reads .bpe vocab output (encode part) := by
  unfold bpeSession at runs
  cases found : bpeTokenize vocab bpe queue (encode part) with
  | none =>
      rw [found] at runs
      cases runs
  | some output' =>
      rw [found] at runs
      cases runs
      exact bpeTokenize_reads complete queue found

/-- Tokenizing a text and reading its tokens back gives the text.  There is no result only where
an expression is refused on a part of the text. -/
theorem bpe_round_trip (complete : BpeComplete vocab bpe) (special : SpecialCache vocab)
    (settings : Settings) (queue : PriorityQueue BigramBpe σ bpeLess) (text : List Char)
    {addSpecial : Bool} (parseSpecial : Bool) {bos eos : List Nat}
    (start : specialId (addSpecial && settings.addBos) settings.specialBosId = .ok bos)
    (stop : specialId (addSpecial && settings.addEos) settings.specialEosId = .ok eos)
    (size capacity : Nat) :
    ∃ cache, buildCache .bpe vocab size = some cache ∧
      (commonTokenize (tokenizeWith (bpeSession vocab bpe queue) vocab special settings)
          (encode text) addSpecial parseSpecial = none →
        ∃ expr ∈ bpe.regexExprs, ∃ part, encode part <:+: encode text ∧
          Refused bpe.tables bpe.regex (part.map Char.toNat) expr) ∧
      ∀ tokens, commonTokenize (tokenizeWith (bpeSession vocab bpe queue) vocab special settings)
          (encode text) addSpecial parseSpecial = some tokens →
        ∃ output, tokens = bos ++ output ++ eos ∧
          readTokens .bpe vocab cache capacity output = some (encode text) := by
  obtain ⟨cache, built⟩ := buildCache_isSome (fun _ => complete.pieceText) size
  refine ⟨cache, built, ?_⟩
  rw [commonTokenize_eq]
  cases tokenized : tokenizeWith (bpeSession vocab bpe queue) vocab special settings (encode text)
      addSpecial parseSpecial with
  | error e =>
      refine ⟨fun _ => ?_, fun tokens absent => nomatch absent⟩
      by_contra compiled
      push Not at compiled
      obtain ⟨tokens, finished⟩ := tokenizeWith_ok (bpeSession vocab bpe queue)
        complete.toPlainTexts special settings text parseSpecial start stop
        fun prev part _ inside =>
          bpeSession_ok queue prev fun expr member => compiled expr member part inside
      rw [tokenized] at finished
      cases finished
  | ok tokens =>
      refine ⟨fun absent => (nomatch absent), fun tokens' same => ?_⟩
      cases same
      obtain ⟨fragments, output, run, split, reads⟩ := tokenizeWith_reads
        (bpeSession vocab bpe queue) (fun _ fragment => fragment)
        (show VocabType.bpe ≠ .rwkv by decide) complete.toPlainTexts start stop
        (fun _ _ _ _ _ runs => bpeSession_reads complete runs) tokenized
      rw [fragmentsRead_plain, partitionText_spells complete.noStrip run] at reads
      exact ⟨output, split, reads.readTokens built capacity⟩

def alphabetTokens : List (TokenData Unit) :=
  ((List.range 256).map UInt8.ofNat).map fun b =>
    { text := byteEncoded [b], score := (), attr := attrNormal }

def mergedTokens : List (TokenData Unit) :=
  [⟨lit "<|im_start|>", (), attrControl⟩, ⟨lit "hi", (), attrNormal⟩]

theorem mergedTokens_longer : ∀ b, ∀ token ∈ mergedTokens, token.text ≠ byteEncoded [b] := by
  apply forall_byte
  decide +kernel

theorem alphabetTokens_distinct : (alphabetTokens.map TokenData.text).Nodup := by
  rw [alphabetTokens, List.map_map, List.map_map]
  apply List.nodup_range.map_on
  intro m inside n inside' same
  rw [List.mem_range] at inside inside'
  have bytes := congrArg UInt8.toNat (List.cons.inj (byteEncoded_injective same)).1
  rwa [UInt8.toNat_ofNat', UInt8.toNat_ofNat', Nat.mod_eq_of_lt inside,
    Nat.mod_eq_of_lt inside'] at bytes

/-- The letters, one merge and one special token. -/
def alphabetVocab : LlamaVocab Unit where
  idToToken := mergedTokens ++ alphabetTokens
  distinct := by
    rw [List.map_append]
    refine List.Nodup.append (by decide) alphabetTokens_distinct ?_
    intro text left right
    obtain ⟨token, member, rfl⟩ := List.mem_map.mp left
    obtain ⟨other, among, same⟩ := List.mem_map.mp right
    obtain ⟨b, _, rfl⟩ := List.mem_map.mp among
    exact mergedTokens_longer b token member same.symm
  nonempty := by
    intro token member
    rcases List.mem_append.mp member with word | byte
    · rintro empty
      have words : ∀ token ∈ mergedTokens, token.text ≠ [] := by decide
      exact words token word empty
    · obtain ⟨b, _, rfl⟩ := List.mem_map.mp byte
      simp [byteEncoded]

def alphabetSpecial : SpecialCache alphabetVocab where
  ids := [0]
  perm := by decide +kernel
  sorted := by decide

def noMatches : RegexLib where
  narrow := fun _ _ => some fun _ _ => []
  wide := fun _ _ => some fun _ _ => []
  narrowInOrder := by
    rintro expr text iterator same start offset
    cases same
    exact Nat.zero_le offset
  wideInOrder := by
    rintro expr text iterator same start offset
    cases same
    exact Nat.zero_le offset

def lettersBpe : BpeTokenizer where
  tables := { flagsFromCpt := fun _ => 0x0004, tolower := fun cpt => cpt }
  regex := noMatches
  regexExprs := [gpt2Expr]
  merges := [lit "h i"]
  ignoreMerges := false

theorem alphabetVocab_cases {token : TokenData Unit} (member : token ∈ alphabetVocab.idToToken) :
    token ∈ mergedTokens ∨
      ∃ b, token = { text := byteEncoded [b], score := (), attr := attrNormal } := by
  rcases List.mem_append.mp member with word | byte
  · exact Or.inl word
  · obtain ⟨b, _, rfl⟩ := List.mem_map.mp byte
    exact Or.inr ⟨b, rfl⟩

theorem alphabetVocab_complete : BpeComplete alphabetVocab lettersBpe where
  noStrip := by
    intro id special known
    obtain ⟨token, here, rfl⟩ := Option.map_eq_some_iff.mp known
    have words : ∀ token ∈ mergedTokens,
        token.has attrLstrip = false ∧ token.has attrRstrip = false := by decide
    rcases alphabetVocab_cases (List.mem_of_getElem? here) with word | ⟨b, rfl⟩
    · exact words token word
    · simp only [TokenData.has]
      decide
  valid := by
    intro token member
    rcases alphabetVocab_cases member with word | ⟨b, rfl⟩
    · have words : ∀ token ∈ mergedTokens,
          token.text = encode (token.text.map fun b => Char.ofNat b.toNat) := by decide
      exact ⟨_, words token word⟩
    · exact ⟨_, rfl⟩
  letters := by
    intro b
    have inside : { text := byteEncoded [b], score := (), attr := attrNormal } ∈ alphabetTokens := by
      refine List.mem_map.mpr ⟨b, List.mem_map.mpr ⟨b.toNat, ?_, UInt8.ofNat_toNat⟩, rfl⟩
      exact List.mem_range.mpr b.toNat_lt
    have known := alphabetVocab.textToToken_of_mem (List.mem_append_right mergedTokens inside)
    exact known
  merges := by
    intro left right ranked
    have among : (left, right) ∈ [lit "h i"].map parseMerge := by
      by_contra missing
      exact ranked (List.idxOf?_eq_none_iff.mpr missing)
    have line : [lit "h i"].map parseMerge = [(lit "h", lit "i")] := by decide
    rw [line, List.mem_singleton, Prod.mk.injEq] at among
    have joined : left ++ right = lit "hi" := by
      rw [among.1, among.2]
      decide
    have inside : { text := lit "hi", score := (), attr := attrNormal } ∈ mergedTokens :=
      List.mem_cons_of_mem _ (List.mem_cons_self ..)
    have known := alphabetVocab.textToToken_of_mem (List.mem_append_left alphabetTokens inside)
    rw [joined]
    exact known
  kinds := by
    intro token member _
    rcases alphabetVocab_cases member with word | ⟨b, rfl⟩
    · have words : ∀ token ∈ mergedTokens, token.text = byteEncoded token.text ∧
          (token.isNormal = true ∨ token.special = true) := by decide
      obtain ⟨same, normal | special⟩ := words token word
      · exact Or.inl normal
      · refine Or.inr ⟨special, fun bytes encoded => ?_⟩
        exact byteEncoded_injective (same.symm.trans encoded)
    · refine Or.inl ?_
      simp only [TokenData.isNormal, TokenData.special, TokenData.has]
      decide

def bareSettings : Settings :=
  { addBos := false, addEos := false, addSpacePrefix := false, specialBosId := none,
    specialEosId := none }

theorem bpe_round_trip_letters : ∃ cache, buildCache .bpe alphabetVocab 15 = some cache ∧
    commonTokenize (tokenizeWith (bpeSession alphabetVocab lettersBpe bpeQueue) alphabetVocab
      alphabetSpecial bareSettings) (lit "hi<|im_start|>ho") true true = some [1, 0, 106, 113] ∧
    readTokens .bpe alphabetVocab cache 15 [1, 0, 106, 113] = some (lit "hi<|im_start|>ho") := by
  have text : lit "hi<|im_start|>ho" = encode "hi<|im_start|>ho".toList := by decide
  have tokens : commonTokenize (tokenizeWith (bpeSession alphabetVocab lettersBpe bpeQueue)
      alphabetVocab alphabetSpecial bareSettings) (lit "hi<|im_start|>ho") true true =
        some [1, 0, 106, 113] := by
    decide +kernel
  obtain ⟨cache, built, _, read⟩ := @bpe_round_trip Unit _ alphabetVocab lettersBpe
    alphabetVocab_complete alphabetSpecial bareSettings bpeQueue
    "hi<|im_start|>ho".toList true true [] [] rfl rfl 15 15
  refine ⟨cache, built, tokens, ?_⟩
  rw [text] at tokens ⊢
  obtain ⟨output, same, text⟩ := read _ tokens
  rw [List.nil_append, List.append_nil] at same
  exact same ▸ text

end Whole

end MineGPT.Vocab
