import MineGPT.Lib.Utf8Search
import MineGPT.Vocab.Pieces

/-!
# Tokenizing a text and reading it back

`llama_vocab::impl::tokenize` puts the parts together: the fragments between the
special tokens go through the session of the vocabulary's type, and tokens for the
start and the end are added.  `common_tokenize` asks it with a buffer of a size
that may be too small.

Reading the tokens back gives the text again where the pieces a session cuts a
fragment into read as that fragment.
-/

set_option autoImplicit false

namespace MineGPT.Vocab

open MineGPT.Lib.ByteString MineGPT.Lib.TextSearch MineGPT.Lib.Utf8 MineGPT.Lib.MergeQueue

variable {S σ : Type}

/-- What the model file says about special tokens and blanks. -/
structure Settings where
  addBos : Bool
  addEos : Bool
  addSpacePrefix : Bool
  specialBosId : Option Nat
  specialEosId : Option Nat

def specialId (wanted : Bool) (id : Option Nat) : Except TokenizeError (List Nat) :=
  if wanted then
    match id with
    | none => .error .noSpecialId
    | some id => .ok [id]
  else .ok []

/-- The loop over the fragments, with `is_prev_special`. -/
def tokenizeFragments (session : Bool → Bytes → Except TokenizeError (List Nat)) (raw : Bytes) :
    List Fragment → Bool → Except TokenizeError (List Nat)
  | [], _ => .ok []
  | .rawText offset length :: rest, isPrevSpecial => do
    let output ← session isPrevSpecial ((raw.drop offset).take length)
    let later ← tokenizeFragments session raw rest false
    return output ++ later
  | .token id :: rest, _ => do
    let later ← tokenizeFragments session raw rest true
    return id :: later

/-- What the cases for SPM and for BPE share. -/
def tokenizeWith (session : Bool → Bytes → Except TokenizeError (List Nat)) (vocab : LlamaVocab S)
    (special : SpecialCache vocab) (settings : Settings) (raw : Bytes)
    (addSpecial parseSpecial : Bool) : Except TokenizeError (List Nat) :=
  match partitionText vocab special raw parseSpecial with
  | none => .error .outOfFuel
  | some fragments => do
    let bos ← specialId (addSpecial && settings.addBos) settings.specialBosId
    let output ← tokenizeFragments session raw fragments true
    let eos ← specialId (addSpecial && settings.addEos) settings.specialEosId
    return bos ++ output ++ eos

def spmSession [LinearOrder S] (vocab : LlamaVocab S) (settings : Settings)
    (queue : PriorityQueue (BigramSpm S) σ spmLess) (isPrevSpecial : Bool) (fragment : Bytes) :
    Except TokenizeError (List Nat) :=
  let text := (if settings.addSpacePrefix && isPrevSpecial then lit " " else []) ++ fragment
  spmTokenize vocab (escapeWhitespace text) queue

def bpeSession (vocab : LlamaVocab S) (bpe : BpeTokenizer)
    (queue : PriorityQueue BigramBpe σ bpeLess) (_ : Bool) (fragment : Bytes) :
    Except TokenizeError (List Nat) :=
  match bpeTokenize vocab bpe queue fragment with
  | none => .error .regexError
  | some output => .ok output

/-- `llama_tokenize` copies the result or says how long it is. -/
def llamaTokenize (result : Except TokenizeError (List Nat)) (capacity : Nat) :
    Option (Int × List Nat) :=
  match result with
  | .error _ => none
  | .ok res =>
    some (if capacity < res.length then (-(res.length : Int), []) else (res.length, res))

def commonTokenize (tokenize : Bytes → Bool → Bool → Except TokenizeError (List Nat)) (text : Bytes)
    (addSpecial parseSpecial : Bool) : Option (List Nat) :=
  askTwice (llamaTokenize (tokenize text addSpecial parseSpecial))
    (text.length + 2 * addSpecial.toNat)

/-! ## The buffers of the callers -/

theorem commonTokenize_eq (tokenize : Bytes → Bool → Bool → Except TokenizeError (List Nat))
    (text : Bytes) (addSpecial parseSpecial : Bool) :
    commonTokenize tokenize text addSpecial parseSpecial =
      (tokenize text addSpecial parseSpecial).toOption := by
  unfold commonTokenize
  cases tokenize text addSpecial parseSpecial with
  | error e => exact askTwice_none rfl
  | ok tokens => exact askTwice_fits (fun _ => rfl) _

def readTokens (type : VocabType) (vocab : LlamaVocab S) (cache : List Bytes) (capacity : Nat)
    (tokens : List Nat) : Option Bytes :=
  (tokens.mapM fun token => commonTokenToPiece type vocab cache capacity token true).map
    List.flatten

def Reads (type : VocabType) (vocab : LlamaVocab S) (tokens : List Nat) (text : Bytes) : Prop :=
  ∃ pieces, List.Forall₂ (fun token piece => pieceOf type vocab token true = some piece)
    tokens pieces ∧ pieces.flatten = text

section Reads

variable {type : VocabType} {vocab : LlamaVocab S}

theorem Reads.nil : Reads type vocab [] [] := ⟨[], List.Forall₂.nil, rfl⟩

theorem Reads.cons {token : Nat} {tokens : List Nat} {piece text : Bytes}
    (here : pieceOf type vocab token true = some piece) (later : Reads type vocab tokens text) :
    Reads type vocab (token :: tokens) (piece ++ text) := by
  obtain ⟨pieces, each, rfl⟩ := later
  exact ⟨piece :: pieces, List.Forall₂.cons here each, rfl⟩

theorem Reads.append {first second : List Nat} {text more : Bytes}
    (front : Reads type vocab first text) (back : Reads type vocab second more) :
    Reads type vocab (first ++ second) (text ++ more) := by
  obtain ⟨pieces, each, rfl⟩ := front
  obtain ⟨others, each', rfl⟩ := back
  exact ⟨pieces ++ others, List.rel_append each each', List.flatten_append⟩

theorem Reads.readTokens {tokens : List Nat} {text : Bytes} (reads : Reads type vocab tokens text)
    {cache : List Bytes} {size : Nat} (built : buildCache type vocab size = some cache)
    (capacity : Nat) : readTokens type vocab cache capacity tokens = some text := by
  obtain ⟨pieces, each, rfl⟩ := reads
  unfold MineGPT.Vocab.readTokens
  simp only [commonTokenToPiece_cached built, mapM_eq_some.mpr each, Option.map_some]

end Reads

/-! ## The fragments -/

def fragmentsRead (vocab : LlamaVocab S) (raw : Bytes) (read : Bool → Bytes → Bytes) :
    List Fragment → Bool → Bytes
  | [], _ => []
  | .rawText offset length :: rest, isPrevSpecial =>
    read isPrevSpecial ((raw.drop offset).take length) ++ fragmentsRead vocab raw read rest false
  | .token id :: rest, _ => vocab.tokenText id ++ fragmentsRead vocab raw read rest true

section Fragments

variable {type : VocabType} {vocab : LlamaVocab S} {raw : Bytes}
  {session : Bool → Bytes → Except TokenizeError (List Nat)} {read : Bool → Bytes → Bytes}

theorem except_bind_ok {ε α β : Type} {x : Except ε α} {f : α → Except ε β} {b : β} :
    (x >>= f) = .ok b ↔ ∃ a, x = .ok a ∧ f a = .ok b := by
  cases x with
  | error e => simp [bind, Except.bind]
  | ok a => simp [bind, Except.bind]

theorem tokenizeFragments_reads : ∀ (fragments : List Fragment) (isPrevSpecial : Bool)
    (output : List Nat),
    (∀ offset length prev tokens, .rawText offset length ∈ fragments →
      session prev ((raw.drop offset).take length) = .ok tokens →
      Reads type vocab tokens (read prev ((raw.drop offset).take length))) →
    (∀ id, .token id ∈ fragments → pieceOf type vocab id true = some (vocab.tokenText id)) →
    tokenizeFragments session raw fragments isPrevSpecial = .ok output →
    Reads type vocab output (fragmentsRead vocab raw read fragments isPrevSpecial) := by
  intro fragments
  induction fragments with
  | nil =>
      intro isPrevSpecial output _ _ run
      cases run
      exact Reads.nil
  | cons head rest ih =>
      intro isPrevSpecial output each special run
      cases head with
      | rawText offset length =>
          rw [tokenizeFragments] at run
          obtain ⟨tokens, first, run⟩ := except_bind_ok.mp run
          obtain ⟨later, remaining, run⟩ := except_bind_ok.mp run
          cases run
          exact (each offset length isPrevSpecial tokens (by simp) first).append
            (ih false later (fun o n prev t member => each o n prev t (by simp [member]))
              (fun id member => special id (by simp [member])) remaining)
      | token id =>
          rw [tokenizeFragments] at run
          obtain ⟨later, remaining, run⟩ := except_bind_ok.mp run
          cases run
          exact Reads.cons (special id (by simp))
            (ih true later (fun o n prev t member => each o n prev t (by simp [member]))
              (fun id member => special id (by simp [member])) remaining)

theorem tokenizeFragments_ok : ∀ (fragments : List Fragment) (isPrevSpecial : Bool),
    (∀ offset length prev, .rawText offset length ∈ fragments →
      ∃ tokens, session prev ((raw.drop offset).take length) = .ok tokens) →
    ∃ output, tokenizeFragments session raw fragments isPrevSpecial = .ok output := by
  intro fragments
  induction fragments with
  | nil => intro isPrevSpecial _; exact ⟨[], rfl⟩
  | cons head rest ih =>
      intro isPrevSpecial each
      cases head with
      | rawText offset length =>
          obtain ⟨tokens, first⟩ := each offset length isPrevSpecial (by simp)
          obtain ⟨later, remaining⟩ := ih false fun o n prev member => each o n prev (by simp [member])
          exact ⟨tokens ++ later, by rw [tokenizeFragments, first, remaining]; rfl⟩
      | token id =>
          obtain ⟨later, remaining⟩ := ih true fun o n prev member => each o n prev (by simp [member])
          exact ⟨id :: later, by rw [tokenizeFragments, remaining]; rfl⟩

theorem fragmentsRead_plain : ∀ (fragments : List Fragment) (isPrevSpecial : Bool),
    fragmentsRead vocab raw (fun _ text => text) fragments isPrevSpecial =
      fragments.flatMap (fragmentText vocab raw) := by
  intro fragments
  induction fragments with
  | nil => intro isPrevSpecial; rfl
  | cons head rest ih =>
      intro isPrevSpecial
      cases head with
      | rawText offset length => rw [fragmentsRead, ih, List.flatMap_cons, fragmentText]
      | token id => rw [fragmentsRead, ih, List.flatMap_cons, fragmentText]

end Fragments

/-! ## Texts in UTF-8 -/

/-- The texts of the tokens are UTF-8, and no token takes the blanks beside it. -/
structure PlainTexts (vocab : LlamaVocab S) : Prop where
  noStrip : NoStrip vocab
  valid : ∀ token ∈ vocab.idToToken, Valid token.text

section Chars

variable {vocab : LlamaVocab S} {text : List Char} {special : SpecialCache vocab}
  {parseSpecial : Bool} {fragments : List Fragment}

theorem cutting_boundary (plain : PlainTexts vocab) (text : List Char) :
    Cutting vocab (encode text) (Boundary text) where
  matched := by
    intro special i known nonempty stands
    obtain ⟨token, here, same⟩ := Option.map_eq_some_iff.mp known
    obtain ⟨chars, bytes⟩ := plain.valid token (List.mem_of_getElem? here)
    have written : special.text = encode chars := by rw [← bytes, ← same]
    rw [written] at nonempty stands ⊢
    exact boundary_found (by rintro rfl; exact nonempty rfl) stands
  blank := by
    intro i blank
    have range : (encode text).getD i 0 = 0x20 ∨
        0x09 ≤ (encode text).getD i 0 ∧ (encode text).getD i 0 ≤ 0x0d := by
      simpa [isspace] using blank
    apply boundary_ascii
    · rintro zero
      rw [zero] at range
      exact absurd range (by decide)
    · rcases range with space | ⟨_, high⟩
      · rw [space]
        decide
      · exact Nat.lt_of_le_of_lt high (by decide)

theorem fragments_chars (plain : PlainTexts vocab)
    (run : partitionText vocab special (encode text) parseSpecial = some fragments)
    {offset length : Nat} (member : .rawText offset length ∈ fragments) :
    ∃ before part after, text = before ++ (part ++ after) ∧ part ≠ [] ∧
      ((encode text).drop offset).take length = encode part := by
  obtain ⟨fragments', run', covers, _, refines⟩ :=
    partitionText_covers special (encode text) parseSpecial
  rw [run, Option.some.injEq] at run'
  subst run'
  obtain ⟨_, positive, inside⟩ := covers.bounds offset length member
  obtain ⟨offset', length', whole, _, _, cuts⟩ := refines offset length member
  obtain ⟨rfl, rfl⟩ : offset' = 0 ∧ length' = (encode text).length := by simpa using whole
  obtain ⟨start, stop⟩ := cuts _ (cutting_boundary plain text) boundary_zero
    (by rw [Nat.zero_add]; exact boundary_length)
  obtain ⟨before, part, after, same, bytes⟩ := start.slice stop
  refine ⟨before, part, after, same, ?_, bytes⟩
  rintro rfl
  have size := congrArg List.length bytes
  rw [List.length_take, List.length_drop, encode_nil, List.length_nil] at size
  omega

theorem pieceOf_token {type : VocabType} (other : type ≠ .rwkv)
    (run : partitionText vocab special (encode text) parseSpecial = some fragments) {id : Nat}
    (member : .token id ∈ fragments) : pieceOf type vocab id true = some (vocab.tokenText id) := by
  have among := special.perm.mem_iff.mp (partitionText_tokens run member)
  have marked := (List.mem_filter.mp among).2
  cases here : vocab.getTokenData id with
  | none =>
      rw [here] at marked
      cases marked
  | some token =>
      rw [here, Option.any_some] at marked
      rw [pieceOf_true, here, Option.bind_some, LlamaVocab.tokenText, here]
      exact pieceText_special other marked

variable {settings : Settings} {addSpecial : Bool} {bos eos : List Nat}

theorem tokenizeWith_ok (session : Bool → Bytes → Except TokenizeError (List Nat))
    (plain : PlainTexts vocab) (special : SpecialCache vocab)
    (settings : Settings) (text : List Char) (parseSpecial : Bool)
    (start : specialId (addSpecial && settings.addBos) settings.specialBosId = .ok bos)
    (stop : specialId (addSpecial && settings.addEos) settings.specialEosId = .ok eos)
    (each : ∀ prev part, part ≠ [] → encode part <:+: encode text →
      ∃ tokens, session prev (encode part) = .ok tokens) :
    ∃ tokens, tokenizeWith session vocab special settings (encode text) addSpecial parseSpecial =
      .ok tokens := by
  obtain ⟨fragments, run, _⟩ := partitionText_covers special (encode text) parseSpecial
  obtain ⟨output, tokenized⟩ := tokenizeFragments_ok fragments true
    fun offset length prev member => by
      obtain ⟨before, part, after, same, nonempty, bytes⟩ := fragments_chars plain run member
      rw [bytes]
      apply each prev part nonempty
      rw [same]
      exact ⟨encode before, encode after, by simp⟩
  refine ⟨bos ++ output ++ eos, ?_⟩
  unfold tokenizeWith
  simp only [run, start, stop, tokenized]
  rfl

theorem tokenizeWith_reads (session : Bool → Bytes → Except TokenizeError (List Nat))
    (read : Bool → Bytes → Bytes) {type : VocabType} (other : type ≠ .rwkv) {tokens : List Nat}
    (plain : PlainTexts vocab)
    (start : specialId (addSpecial && settings.addBos) settings.specialBosId = .ok bos)
    (stop : specialId (addSpecial && settings.addEos) settings.specialEosId = .ok eos)
    (each : ∀ prev part output, part ≠ [] → encode part <:+: encode text →
      session prev (encode part) = .ok output → Reads type vocab output (read prev (encode part)))
    (tokenized : tokenizeWith session vocab special settings (encode text) addSpecial parseSpecial =
      .ok tokens) :
    ∃ fragments output, partitionText vocab special (encode text) parseSpecial = some fragments ∧
      tokens = bos ++ output ++ eos ∧
      Reads type vocab output (fragmentsRead vocab (encode text) read fragments true) := by
  obtain ⟨fragments, run, _⟩ := partitionText_covers special (encode text) parseSpecial
  unfold tokenizeWith at tokenized
  simp only [run, start, stop] at tokenized
  obtain ⟨bos', same, tokenized⟩ := except_bind_ok.mp tokenized
  obtain ⟨output, runs, tokenized⟩ := except_bind_ok.mp tokenized
  obtain ⟨eos', same', tokenized⟩ := except_bind_ok.mp tokenized
  cases same
  cases same'
  cases tokenized
  refine ⟨fragments, output, run, rfl, tokenizeFragments_reads fragments true output ?_ ?_ runs⟩
  · intro offset length prev tokens member here
    obtain ⟨before, part, after, same, nonempty, bytes⟩ := fragments_chars plain run member
    rw [bytes] at here ⊢
    apply each prev part tokens nonempty ?_ here
    rw [same]
    exact ⟨encode before, encode after, by simp⟩
  · exact fun id member => pieceOf_token other run member

end Chars

/-! ## Without an exception -/

theorem escapeWhitespace_ne_nil {text : Bytes} (nonempty : text ≠ []) :
    escapeWhitespace text ≠ [] := by
  obtain ⟨b, rest, rfl⟩ := List.exists_cons_of_ne_nil nonempty
  rw [escapeWhitespace, replaceAll_eq (by decide), substitute]
  split_ifs
  · exact List.append_ne_nil_of_left_ne_nil (by decide) _
  · exact List.cons_ne_nil _ _

theorem spmSession_ok [LinearOrder S] {vocab : LlamaVocab S} (bytes : ByteTokens vocab)
    (settings : Settings) (queue : PriorityQueue (BigramSpm S) σ spmLess) (isPrevSpecial : Bool)
    {fragment : Bytes} (nonempty : fragment ≠ []) :
    ∃ tokens, spmSession vocab settings queue isPrevSpecial fragment = .ok tokens := by
  unfold spmSession
  have written := escapeWhitespace_ne_nil (List.append_ne_nil_of_right_ne_nil
    (if settings.addSpacePrefix && isPrevSpecial then lit " " else []) nonempty)
  obtain ⟨pieces, _, _, run⟩ := spmTokenize_pieces queue written
  obtain ⟨tokens, emitted⟩ := emitPieces_ok bytes pieces
  exact ⟨tokens, run.trans emitted⟩

theorem specialId_error {wanted : Bool} {id : Option Nat} {e : TokenizeError}
    (failed : specialId wanted id = .error e) : e = .noSpecialId := by
  unfold specialId at failed
  split at failed
  · split at failed
    · exact (Except.error.inj failed).symm
    · cases failed
  · cases failed

/-- With a session that does not fail, only the assertions on the special tokens can. -/
theorem tokenizeWith_error {session : Bool → Bytes → Except TokenizeError (List Nat)}
    {vocab : LlamaVocab S}
    (each : ∀ prev fragment, fragment ≠ [] → ∃ tokens, session prev fragment = .ok tokens)
    (special : SpecialCache vocab) (settings : Settings) {raw : Bytes}
    {addSpecial parseSpecial : Bool} {e : TokenizeError}
    (failed : tokenizeWith session vocab special settings raw addSpecial parseSpecial = .error e) :
    e = .noSpecialId := by
  obtain ⟨fragments, run, covers, _⟩ := partitionText_covers special raw parseSpecial
  obtain ⟨output, tokenized⟩ :
      ∃ output, tokenizeFragments session raw fragments true = .ok output := by
    apply tokenizeFragments_ok
    intro offset length prev member
    obtain ⟨_, positive, inside⟩ := covers.bounds offset length member
    apply each prev
    intro empty
    have size := congrArg List.length empty
    rw [List.length_take, List.length_drop, List.length_nil] at size
    omega
  unfold tokenizeWith at failed
  simp only [run, tokenized] at failed
  cases start : specialId (addSpecial && settings.addBos) settings.specialBosId with
  | error e' =>
      rw [start] at failed
      cases failed
      exact specialId_error start
  | ok bos =>
      cases stop : specialId (addSpecial && settings.addEos) settings.specialEosId with
      | error e' =>
          rw [start, stop] at failed
          cases failed
          exact specialId_error stop
      | ok eos =>
          rw [start, stop] at failed
          cases failed

end MineGPT.Vocab
