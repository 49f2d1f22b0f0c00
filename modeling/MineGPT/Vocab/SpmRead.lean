import MineGPT.Vocab.Tokenize

/-!
# An SPM text comes back

Blanks are written as `▁`, so that reading the tokens gives the text with every
`▁` as a blank, and with the blank that is put before a fragment at the start or
behind a special token.
-/

set_option autoImplicit false

namespace MineGPT.Vocab

open MineGPT.Lib.ByteString MineGPT.Lib.TextSearch MineGPT.Lib.Utf8 MineGPT.Lib.MergeQueue
open MineGPT.Lib.PairMerge
open String (utf8EncodeChar)

variable {S σ : Type}

/-! ## Blanks -/

def blank (c : Char) : Char := if c = ' ' then '▁' else c

def unblank (c : Char) : Char := if c = '▁' then ' ' else c

theorem lit_space : lit " " = encode [' '] := by decide

theorem blankMark_eq : blankMark = encode ['▁'] := by decide

theorem escape_encode (text : List Char) :
    escapeWhitespace (encode text) = encode (text.map blank) := by
  rw [escapeWhitespace, lit_space, blankMark_eq, replaceAll_encode]
  rfl

theorem unescape_encode (text : List Char) :
    unescapeWhitespace (encode text) = encode (text.map unblank) := by
  rw [unescapeWhitespace, lit_space, blankMark_eq, replaceAll_encode]
  rfl

theorem unescape_escape (text : List Char) :
    unescapeWhitespace (encode (text.map blank)) = unescapeWhitespace (encode text) := by
  have both : ∀ c, unblank (blank c) = unblank c := by
    intro c
    unfold blank
    split_ifs with space
    · rw [space]
      decide
    · rfl
  rw [unescape_encode, unescape_encode, List.map_map]
  congr 2
  exact funext both

theorem unescape_flatten : ∀ (pieces : List Bytes), (∀ piece ∈ pieces, Valid piece) →
    unescapeWhitespace pieces.flatten = (pieces.map unescapeWhitespace).flatten ∧
      Valid pieces.flatten := by
  intro pieces
  induction pieces with
  | nil => intro _; exact ⟨rfl, [], rfl⟩
  | cons piece rest ih =>
      intro each
      obtain ⟨chars, rfl⟩ := each piece (by simp)
      obtain ⟨later, others, bytes⟩ := ih fun p member => each p (by simp [member])
      rw [bytes] at later
      rw [List.flatten_cons, bytes, List.map_cons, List.flatten_cons, ← later, ← encode_append,
        unescape_encode, unescape_encode, unescape_encode, List.map_append, encode_append]
      exact ⟨rfl, _, rfl⟩

theorem unescape_unmarked {chars : List Char} (unmarked : ¬ blankMark <:+: encode chars) :
    unescapeWhitespace (encode chars) = encode chars := by
  have absent : '▁' ∉ chars := by
    intro member
    obtain ⟨front, back, rfl⟩ := List.append_of_mem member
    apply unmarked
    rw [blankMark_eq]
    exact ⟨encode front, encode back, by simp⟩
  rw [unescape_encode]
  congr 1
  conv_rhs => rw [← List.map_id chars]
  apply List.map_congr_left
  intro c member
  have other : c ≠ '▁' := fun same => absent (same ▸ member)
  exact if_neg other

/-! ## The names of bytes -/

def byteName (b : UInt8) : List Char :=
  let digit := fun n : Nat => "0123456789ABCDEF".toList.getD n ' '
  ['<', '0', 'x', digit (b.toNat / 16), digit (b.toNat % 16), '>']

theorem byteName_spec : ∀ b, byteText b = encode (byteName b) ∧ '▁' ∉ byteName b ∧
    (byteName b).head? = some '<' := by
  apply forall_byte
  decide +kernel

theorem tokenToByte_byteText {token : TokenData S} {b : UInt8} (text : token.text = byteText b) :
    tokenToByte token = some b := by
  have read : ∀ b, ¬ (byteText b).length < 3 ∧
      UInt8.ofNat ((strtolHex (((byteText b).drop 3).take 2)) % 256).toNat = b := by
    apply forall_byte
    decide +kernel
  obtain ⟨long, back⟩ := read b
  rw [tokenToByte, text, if_neg long, back]

theorem byteText_injective : Function.Injective byteText := by
  intro first second same
  have read := @tokenToByte_byteText Nat { text := byteText first, score := 0, attr := attrByte }
  exact Option.some.inj ((read rfl).symm.trans (read same))

theorem byteText_escaped {b : UInt8} {text : List Char}
    (stands : byteText b <:+: encode (text.map blank)) : byteText b <:+: encode text := by
  obtain ⟨name, unmarked, head⟩ := byteName_spec b
  obtain ⟨before, after, same⟩ := stands
  rw [name, List.append_assoc] at same
  obtain ⟨front, back, split, _, _⟩ := encode_infix (by rintro none; rw [none] at head; cases head)
    same.symm
  obtain ⟨front', rest, rfl, rfl, later⟩ := List.map_eq_append_iff.mp split
  obtain ⟨inside, back', rfl, written, rfl⟩ := List.map_eq_append_iff.mp later
  have kept : inside.map blank = inside := by
    conv_rhs => rw [← List.map_id inside]
    apply List.map_congr_left
    intro c member
    apply if_neg
    rintro rfl
    apply unmarked
    rw [← written]
    exact List.mem_map.mpr ⟨' ', member, by decide⟩
  rw [name, ← written, kept]
  exact ⟨encode front', encode back', by simp⟩

theorem byteText_prefixed {b : UInt8} {text : List Char}
    (stands : byteText b <:+: encode (' ' :: text)) : byteText b <:+: encode text := by
  obtain ⟨name, _, head⟩ := byteName_spec b
  obtain ⟨before, after, same⟩ := stands
  rw [name, List.append_assoc] at same
  obtain ⟨front, back, split, _, _⟩ := encode_infix (by rintro none; rw [none] at head; cases head)
    same.symm
  cases front with
  | nil =>
      have first := congrArg List.head? split
      rw [List.nil_append, List.head?_append, head, List.head?_cons] at first
      exact absurd first (by simp)
  | cons c front =>
      rw [List.cons_append, List.cons.injEq] at split
      rw [name, split.2]
      exact ⟨encode front, encode back, by simp⟩

/-! ## Pieces and their tokens -/

/-- There is a token for every byte and for the mark, and every token is a special one, a normal
one or the token of a byte. -/
structure SpmComplete (vocab : LlamaVocab S) : Prop extends PlainTexts vocab where
  bytes : ∀ b, vocab.textToToken (byteText b) ≠ none
  blank : vocab.textToToken blankMark ≠ none
  kinds : ∀ token ∈ vocab.idToToken,
    token.isByte = true ∧ (∃ b, token.text = byteText b) ∨
      (∀ b, token.text ≠ byteText b) ∧
        (token.isNormal = true ∨ token.special = true ∧ ¬ blankMark <:+: token.text)

section Pieces

variable {vocab : LlamaVocab S}

theorem spmByteToToken_reads (complete : SpmComplete vocab) (b : UInt8) :
    ∃ id, spmByteToToken vocab b = .ok id ∧ pieceOf .spm vocab id true = some [b] := by
  obtain ⟨id, known⟩ := Option.ne_none_iff_exists'.mp (complete.bytes b)
  obtain ⟨token, here, text⟩ := vocab.textToToken_iff.mp known
  refine ⟨id, by rw [spmByteToToken, known], ?_⟩
  rw [pieceOf_here here]
  rcases complete.kinds token (List.mem_of_getElem? here) with ⟨byte, _⟩ | ⟨other, _⟩
  · simp only [TokenData.isByte, Bool.and_eq_true, Bool.not_eq_true'] at byte
    rw [pieceText_spm byte.1.1]
    simp only [byte.1.2, byte.2, Bool.false_eq_true, if_false, if_true, tokenToByte_byteText text,
      Option.map_some]
  · exact absurd text (other b)

theorem spmBytes_reads (complete : SpmComplete vocab) : ∀ piece : Bytes,
    ∃ tokens, piece.mapM (spmByteToToken vocab) = .ok tokens ∧ Reads .spm vocab tokens piece := by
  intro piece
  induction piece with
  | nil => exact ⟨[], rfl, Reads.nil⟩
  | cons b rest ih =>
      obtain ⟨id, first, here⟩ := spmByteToToken_reads complete b
      obtain ⟨tokens, later, reads⟩ := ih
      refine ⟨id :: tokens, ?_, Reads.cons here reads⟩
      rw [List.mapM_cons, first, later]
      rfl

/-- What a session leaves: characters that are a token, or a single one. -/
def Leftover (vocab : LlamaVocab S) (piece : Bytes) : Prop :=
  ∃ chars, piece = encode chars ∧ (vocab.textToToken piece ≠ none ∨ ∃ c, chars = [c])

theorem emitPiece_reads (complete : SpmComplete vocab) {piece : Bytes} (left : Leftover vocab piece)
    (absent : ∀ b, piece ≠ byteText b) :
    ∃ tokens, emitPiece vocab piece = .ok tokens ∧
      Reads .spm vocab tokens (unescapeWhitespace piece) := by
  obtain ⟨chars, rfl, one⟩ := left
  unfold emitPiece
  cases known : vocab.textToToken (encode chars) with
  | some id =>
      obtain ⟨token, here, text⟩ := vocab.textToToken_iff.mp known
      refine ⟨[id], rfl, ?_⟩
      have reads : pieceOf .spm vocab id true = some (unescapeWhitespace (encode chars)) := by
        rw [pieceOf_here here]
        rcases complete.kinds token (List.mem_of_getElem? here) with
          ⟨_, b, named⟩ | ⟨_, normal | ⟨special, unmarked⟩⟩
        · exact absurd (text.symm.trans named) (absent b)
        · simp only [TokenData.isNormal, Bool.and_eq_true, Bool.not_eq_true'] at normal
          rw [pieceText_spm normal.1, text]
          simp only [normal.2, if_true]
        · rw [pieceText_special (by decide) special, text, unescape_unmarked (text ▸ unmarked)]
      simpa using Reads.cons reads Reads.nil
  | none =>
      obtain ⟨c, rfl⟩ : ∃ c, chars = [c] := by
        rcases one with token | single
        · exact absurd known token
        · exact single
      have visible : ¬ blankMark <:+: encode [c] := by
        rintro ⟨before, after, same⟩
        rw [blankMark_eq, List.append_assoc] at same
        obtain ⟨front, back, split, _, _⟩ := encode_infix (by simp) same.symm
        have mark : c = '▁' := by
          rcases List.append_eq_singleton_iff.mp split.symm with ⟨_, rest⟩ | ⟨_, none⟩
          · rw [List.singleton_append, List.cons.injEq] at rest
            exact rest.1.symm
          · simp at none
        rw [mark, ← blankMark_eq] at known
        exact complete.blank known
      obtain ⟨tokens, run, reads⟩ := spmBytes_reads complete (encode [c])
      rw [unescape_unmarked visible]
      exact ⟨tokens, run, reads⟩

theorem emitPieces_reads (complete : SpmComplete vocab) : ∀ pieces : List Bytes,
    (∀ piece ∈ pieces, Leftover vocab piece) → (∀ b, byteText b ∉ pieces) →
    ∃ tokens, emitPieces vocab pieces = .ok tokens ∧
      Reads .spm vocab tokens (pieces.map unescapeWhitespace).flatten := by
  intro pieces
  induction pieces with
  | nil => intro _ _; exact ⟨[], rfl, Reads.nil⟩
  | cons piece rest ih =>
      intro left absent
      obtain ⟨first, here, reads⟩ := emitPiece_reads complete (left piece (by simp))
        fun b same => absent b (by simp [same])
      obtain ⟨tokens, later, others⟩ := ih (fun p member => left p (by simp [member]))
        fun b member => absent b (by simp [member])
      refine ⟨first ++ tokens, ?_, reads.append others⟩
      unfold emitPieces at later ⊢
      obtain ⟨outputs, each, run⟩ := except_bind_ok.mp later
      cases run
      rw [List.mapM_cons, here, each]
      rfl

end Pieces

/-! ## The session -/

section Session

variable [LinearOrder S] {vocab : LlamaVocab S}

theorem spmTokenize_reads (complete : SpmComplete vocab)
    (queue : PriorityQueue (BigramSpm S) σ spmLess) {text : List Char} (nonempty : text ≠ [])
    (absent : ∀ b, ¬ byteText b <:+: encode text) :
    ∃ tokens, spmTokenize vocab (escapeWhitespace (encode text)) queue = .ok tokens ∧
      Reads .spm vocab tokens (unescapeWhitespace (encode text)) := by
  rw [escape_encode]
  have some_bytes : encode (text.map blank) ≠ [] := fun none =>
    nonempty (List.map_eq_nil_iff.mp (encode_eq_nil none))
  obtain ⟨pieces, greedy, _, run⟩ := spmTokenize_pieces queue some_bytes
  have left : ∀ piece ∈ pieces, Leftover vocab piece := by
    refine forall_of_greedy ?_ greedy ?_
    · rintro a b score scored ⟨first, rfl, _⟩ ⟨second, rfl, _⟩
      refine ⟨first ++ second, (encode_append first second).symm, Or.inl ?_⟩
      intro unknown
      rw [spmScore, unknown] at scored
      cases scored
    · intro piece member
      rw [splitSymbols_encode] at member
      obtain ⟨c, _, rfl⟩ := List.mem_map.mp member
      exact ⟨[c], by simp, Or.inr ⟨c, rfl⟩⟩
  have spelled : pieces.flatten = encode (text.map blank) := by
    rw [flatten_of_greedy greedy, splitSymbols_flatten]
  have unnamed : ∀ b, byteText b ∉ pieces := by
    intro b member
    apply absent b
    apply byteText_escaped
    rw [← spelled]
    exact List.infix_of_mem_flatten member
  obtain ⟨tokens, emitted, reads⟩ := emitPieces_reads complete pieces left unnamed
  have valid : ∀ piece ∈ pieces, Valid piece := by
    intro piece member
    obtain ⟨chars, bytes, _⟩ := left piece member
    exact ⟨chars, bytes⟩
  rw [← (unescape_flatten pieces valid).1, spelled, unescape_escape] at reads
  exact ⟨tokens, run.trans emitted, reads⟩

def spmRead (settings : Settings) (isPrevSpecial : Bool) (fragment : Bytes) : Bytes :=
  (if settings.addSpacePrefix && isPrevSpecial then lit " " else []) ++ unescapeWhitespace fragment

theorem spmSession_reads (complete : SpmComplete vocab) (settings : Settings)
    (queue : PriorityQueue (BigramSpm S) σ spmLess) (isPrevSpecial : Bool) {part : List Char}
    (nonempty : part ≠ []) (absent : ∀ b, ¬ byteText b <:+: encode part) :
    ∃ tokens, spmSession vocab settings queue isPrevSpecial (encode part) = .ok tokens ∧
      Reads .spm vocab tokens (spmRead settings isPrevSpecial (encode part)) := by
  unfold spmSession spmRead
  dsimp only
  split_ifs
  · obtain ⟨tokens, run, reads⟩ := spmTokenize_reads complete queue (List.cons_ne_nil ' ' part)
      fun b stands => absent b (byteText_prefixed stands)
    have spaced : lit " " ++ encode part = encode (' ' :: part) := by
      rw [lit_space, ← encode_append, List.singleton_append]
    have read : lit " " ++ unescapeWhitespace (encode part) =
        unescapeWhitespace (encode (' ' :: part)) := by
      rw [unescape_encode, unescape_encode, lit_space, ← encode_append]
      rfl
    rw [spaced, read]
    exact ⟨tokens, run, reads⟩
  · exact spmTokenize_reads complete queue nonempty absent

end Session

/-! ## The whole text -/

section Whole

variable {vocab : LlamaVocab S} {special : SpecialCache vocab} {text : List Char}
  {parseSpecial : Bool} {fragments : List Fragment}

theorem SpmComplete.pieceText (complete : SpmComplete vocab) {token : TokenData S}
    (member : token ∈ vocab.idToToken) : pieceText .spm token ≠ none := by
  rcases complete.kinds token member with ⟨byte, b, text⟩ | ⟨_, normal | ⟨marked, _⟩⟩
  · simp only [TokenData.isByte, Bool.and_eq_true, Bool.not_eq_true'] at byte
    rw [pieceText_spm byte.1.1]
    simp [byte.1.2, byte.2, tokenToByte_byteText text]
  · simp only [TokenData.isNormal, Bool.and_eq_true, Bool.not_eq_true'] at normal
    rw [pieceText_spm normal.1]
    simp [normal.2]
  · rw [pieceText_special (by decide) marked]
    exact Option.some_ne_none _

theorem SpmComplete.fragment (complete : SpmComplete vocab)
    (run : partitionText vocab special (encode text) parseSpecial = some fragments) :
    ∀ fragment ∈ fragments, Valid (fragmentText vocab (encode text) fragment) ∧
      ∀ id, fragment = .token id → unescapeWhitespace (vocab.tokenText id) = vocab.tokenText id := by
  intro fragment member
  cases fragment with
  | rawText offset length =>
      obtain ⟨_, part, _, _, _, bytes⟩ := fragments_chars complete.toPlainTexts run member
      exact ⟨⟨part, bytes⟩, fun id same => by cases same⟩
  | token id =>
      have among := special.perm.mem_iff.mp (partitionText_tokens run member)
      have marked := (List.mem_filter.mp among).2
      cases here : vocab.getTokenData id with
      | none =>
          rw [here] at marked
          cases marked
      | some token =>
          rw [here, Option.any_some] at marked
          have inside := List.mem_of_getElem? here
          obtain ⟨chars, bytes⟩ := complete.valid token inside
          have shown : vocab.tokenText id = encode chars := by
            rw [LlamaVocab.tokenText, here, ← bytes]
          refine ⟨⟨chars, shown⟩, ?_⟩
          rintro id' same
          cases same
          rw [shown]
          rcases complete.kinds token inside with ⟨byte, _⟩ | ⟨_, normal | ⟨_, unmarked⟩⟩
          · simp only [TokenData.isByte, marked, Bool.not_true, Bool.false_and,
              Bool.false_eq_true] at byte
          · simp only [TokenData.isNormal, marked, Bool.not_true, Bool.false_and,
              Bool.false_eq_true] at normal
          · exact unescape_unmarked (bytes ▸ unmarked)

theorem fragmentsRead_unescape (complete : SpmComplete vocab)
    (run : partitionText vocab special (encode text) parseSpecial = some fragments) :
    fragmentsRead vocab (encode text) (fun _ => unescapeWhitespace) fragments true =
      unescapeWhitespace (encode text) := by
  have each := complete.fragment run
  have pieces : ∀ (rest : List Fragment) (prev : Bool), (∀ fragment ∈ rest, fragment ∈ fragments) →
      fragmentsRead vocab (encode text) (fun _ => unescapeWhitespace) rest prev =
        ((rest.map (fragmentText vocab (encode text))).map unescapeWhitespace).flatten := by
    intro rest
    induction rest with
    | nil => intro prev _; rfl
    | cons head rest ih =>
        intro prev among
        have later := fun prev' => ih prev' fun fragment member => among fragment (by simp [member])
        cases head with
        | rawText offset length =>
            rw [fragmentsRead, later, List.map_cons, List.map_cons, List.flatten_cons, fragmentText]
        | token id =>
            have kept := (each (.token id) (among _ (by simp))).2 id rfl
            rw [fragmentsRead, later, List.map_cons, List.map_cons, List.flatten_cons, fragmentText,
              kept]
  have valid : ∀ piece ∈ fragments.map (fragmentText vocab (encode text)), Valid piece := by
    intro piece member
    obtain ⟨fragment, inside, rfl⟩ := List.mem_map.mp member
    exact (each fragment inside).1
  have spelled := partitionText_spells complete.noStrip run
  rw [List.flatMap_def] at spelled
  rw [pieces fragments true fun _ member => member, ← (unescape_flatten _ valid).1, spelled]

/-- Tokenizing a text and reading its tokens back gives the text with blanks for the marks, and
with the blanks that the vocabulary puts in front of what is between special tokens. -/
theorem spm_round_trip [LinearOrder S] (complete : SpmComplete vocab) (special : SpecialCache vocab)
    (settings : Settings) (queue : PriorityQueue (BigramSpm S) σ spmLess)
    (absent : ∀ b, ¬ byteText b <:+: encode text) {addSpecial : Bool} (parseSpecial : Bool)
    {bos eos : List Nat}
    (start : specialId (addSpecial && settings.addBos) settings.specialBosId = .ok bos)
    (stop : specialId (addSpecial && settings.addEos) settings.specialEosId = .ok eos)
    (size capacity : Nat) :
    ∃ cache fragments output, buildCache .spm vocab size = some cache ∧
      partitionText vocab special (encode text) parseSpecial = some fragments ∧
      commonTokenize (tokenizeWith (spmSession vocab settings queue) vocab special settings)
        (encode text) addSpecial parseSpecial = some (bos ++ output ++ eos) ∧
      readTokens .spm vocab cache capacity output =
        some (fragmentsRead vocab (encode text) (spmRead settings) fragments true) ∧
      (settings.addSpacePrefix = false →
        readTokens .spm vocab cache capacity output =
          some (unescapeWhitespace (encode text))) := by
  obtain ⟨cache, built⟩ := buildCache_isSome (fun _ => complete.pieceText) size
  have parts : ∀ prev part, part ≠ [] → encode part <:+: encode text →
      ∃ tokens, spmSession vocab settings queue prev (encode part) = .ok tokens ∧
        Reads .spm vocab tokens (spmRead settings prev (encode part)) := by
    intro prev part nonempty inside
    exact spmSession_reads complete settings queue prev nonempty
      fun b stands => absent b (stands.trans inside)
  obtain ⟨tokens, tokenized⟩ := tokenizeWith_ok (spmSession vocab settings queue)
    complete.toPlainTexts special settings text parseSpecial start stop fun prev part nonempty inside =>
      (parts prev part nonempty inside).imp fun _ both => both.1
  obtain ⟨fragments, output, run, rfl, reads⟩ := tokenizeWith_reads
    (spmSession vocab settings queue) (spmRead settings) (show VocabType.spm ≠ .rwkv by decide)
    complete.toPlainTexts start stop
    (fun prev part tokens nonempty inside runs => by
      obtain ⟨tokens', runs', reads⟩ := parts prev part nonempty inside
      rw [runs, Except.ok.injEq] at runs'
      exact runs' ▸ reads) tokenized
  refine ⟨cache, fragments, output, built, run, ?_, reads.readTokens built capacity, ?_⟩
  · rw [commonTokenize_eq, tokenized]
    rfl
  intro bare
  have same : spmRead settings = fun _ => unescapeWhitespace := by
    funext prev fragment
    simp [spmRead, bare]
  rw [reads.readTokens built capacity, same, fragmentsRead_unescape complete run]

def byteTokens : List (TokenData Int) :=
  ((List.range 256).map UInt8.ofNat).map fun b =>
    { text := byteText b, score := 0, attr := attrByte }

def wordTokens : List (TokenData Int) :=
  [⟨lit "<s>", 0, attrControl⟩, ⟨blankMark, 0, attrNormal⟩, ⟨lit "h", 0, attrNormal⟩,
    ⟨lit "i", 0, attrNormal⟩, ⟨lit "hi", 1, attrNormal⟩]

theorem byteTokens_distinct : (byteTokens.map TokenData.text).Nodup := by
  rw [byteTokens, List.map_map, List.map_map]
  apply List.nodup_range.map_on
  intro m inside n inside' same
  rw [List.mem_range] at inside inside'
  have bytes := congrArg UInt8.toNat (byteText_injective same)
  rwa [UInt8.toNat_ofNat', UInt8.toNat_ofNat', Nat.mod_eq_of_lt inside,
    Nat.mod_eq_of_lt inside'] at bytes

theorem wordTokens_unnamed : ∀ b, ∀ token ∈ wordTokens, token.text ≠ byteText b := by
  apply forall_byte
  decide +kernel

theorem wordTokens_texts : ∀ token ∈ wordTokens, token.text ≠ [] := by decide

def wordsVocab : LlamaVocab Int where
  idToToken := wordTokens ++ byteTokens
  distinct := by
    rw [List.map_append]
    refine List.Nodup.append (by decide) byteTokens_distinct ?_
    intro text left right
    obtain ⟨token, member, rfl⟩ := List.mem_map.mp left
    obtain ⟨other, among, same⟩ := List.mem_map.mp right
    obtain ⟨b, _, rfl⟩ := List.mem_map.mp among
    exact wordTokens_unnamed b token member same.symm
  nonempty := by
    intro token member
    rcases List.mem_append.mp member with word | byte
    · exact wordTokens_texts token word
    · obtain ⟨b, _, rfl⟩ := List.mem_map.mp byte
      exact List.cons_ne_nil _ _

def wordsSpecial : SpecialCache wordsVocab where
  ids := [0]
  perm := by decide +kernel
  sorted := by decide

theorem wordsVocab_cases {token : TokenData Int} (member : token ∈ wordsVocab.idToToken) :
    token ∈ wordTokens ∨ ∃ b, token = { text := byteText b, score := 0, attr := attrByte } := by
  rcases List.mem_append.mp member with word | byte
  · exact Or.inl word
  · obtain ⟨b, _, rfl⟩ := List.mem_map.mp byte
    exact Or.inr ⟨b, rfl⟩

theorem wordsVocab_noStrip : NoStrip wordsVocab := by
  intro id special known
  obtain ⟨token, here, rfl⟩ := Option.map_eq_some_iff.mp known
  have words : ∀ token ∈ wordTokens,
      token.has attrLstrip = false ∧ token.has attrRstrip = false := by decide
  rcases wordsVocab_cases (List.mem_of_getElem? here) with word | ⟨b, rfl⟩
  · exact words token word
  · simp only [TokenData.has]
    decide

theorem wordTokens_valid {token : TokenData Int} (word : token ∈ wordTokens) :
    Valid token.text := by
  have words : wordTokens.map TokenData.text =
      [encode ['<', 's', '>'], encode ['▁'], encode ['h'], encode ['i'], encode ['h', 'i']] := by
    decide
  have text : token.text ∈ wordTokens.map TokenData.text := List.mem_map.mpr ⟨token, word, rfl⟩
  rw [words] at text
  simp only [List.mem_cons, List.not_mem_nil, or_false] at text
  rcases text with text | text | text | text | text
  all_goals exact ⟨_, text⟩

theorem wordsVocab_bytes (b : UInt8) : wordsVocab.textToToken (byteText b) ≠ none := by
  have inside : { text := byteText b, score := 0, attr := attrByte } ∈ byteTokens := by
    refine List.mem_map.mpr ⟨b, List.mem_map.mpr ⟨b.toNat, ?_, UInt8.ofNat_toNat⟩, rfl⟩
    exact List.mem_range.mpr b.toNat_lt
  exact wordsVocab.textToToken_of_mem (List.mem_append_right wordTokens inside)

theorem wordsVocab_complete : SpmComplete wordsVocab where
  noStrip := wordsVocab_noStrip
  valid := by
    intro token member
    rcases wordsVocab_cases member with word | ⟨b, rfl⟩
    · exact wordTokens_valid word
    · exact ⟨byteName b, (byteName_spec b).1⟩
  bytes := wordsVocab_bytes
  blank := by
    have mark : { text := blankMark, score := 0, attr := attrNormal } ∈ wordTokens :=
      List.mem_cons_of_mem _ (List.mem_cons_self ..)
    have known := wordsVocab.textToToken_of_mem (List.mem_append_left byteTokens mark)
    exact known
  kinds := by
    intro token member
    rcases wordsVocab_cases member with word | ⟨b, rfl⟩
    · have words : ∀ token ∈ wordTokens,
          token.isNormal = true ∨ token.special = true ∧ ¬ blankMark <:+: token.text := by decide
      exact Or.inr ⟨fun b => wordTokens_unnamed b token word, words token word⟩
    · refine Or.inl ⟨?_, b, rfl⟩
      simp only [TokenData.isByte, TokenData.special, TokenData.has]
      decide

def wordsSettings : Settings :=
  { addBos := true, addEos := false, addSpacePrefix := true, specialBosId := some 0,
    specialEosId := none }

theorem spm_round_trip_words : ∃ cache output, buildCache .spm wordsVocab 15 = some cache ∧
    commonTokenize (tokenizeWith (spmSession wordsVocab wordsSettings spmQueue) wordsVocab
      wordsSpecial wordsSettings) (lit "hi ho<s>hi") true true = some (0 :: output) ∧
    readTokens .spm wordsVocab cache 15 output = some (lit " hi ho<s> hi") := by
  have text : lit "hi ho<s>hi" = encode ['h', 'i', ' ', 'h', 'o', '<', 's', '>', 'h', 'i'] := by
    decide
  have absent : ∀ b, ¬ byteText b <:+:
      encode ['h', 'i', ' ', 'h', 'o', '<', 's', '>', 'h', 'i'] := by
    apply forall_byte
    decide +kernel
  obtain ⟨cache, fragments, output, built, run, tokens, read, _⟩ :=
    @spm_round_trip Int _ wordsVocab _ _ wordsVocab_complete wordsSpecial wordsSettings spmQueue
      absent true true [0] [] rfl rfl 15 15
  have cut : partitionText wordsVocab wordsSpecial (lit "hi ho<s>hi") true =
      some [.rawText 0 5, .token 0, .rawText 8 2] := by decide +kernel
  rw [← text] at run tokens read
  rw [cut, Option.some.injEq] at run
  rw [← run] at read
  refine ⟨cache, output, built, ?_, ?_⟩
  · rw [tokens, List.append_nil]
    rfl
  · rw [read, Option.some.injEq]
    decide +kernel

end Whole

end MineGPT.Vocab
