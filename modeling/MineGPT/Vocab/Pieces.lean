import MineGPT.Vocab.Bpe
import MineGPT.Vocab.Partition

/-!
# The text of a token

`token_to_piece` copies the text of a token into the caller's buffer, from the
vocabulary or from the cache that `load` fills with it.  Callers ask with a small
buffer first and again with the size they are told.
-/

set_option autoImplicit false

namespace MineGPT.Vocab

open MineGPT.Lib.ByteString MineGPT.Lib.TextSearch

variable {S α : Type}

/-- The types whose tokens have a text. -/
inductive VocabType where
  | spm
  | bpe
  | wpm
  | ugm
  | rwkv
  deriving DecidableEq, Repr

/-! ## Bytes as hexadecimal numbers -/

def hexValue (b : UInt8) : Option Nat :=
  if 0x30 ≤ b ∧ b ≤ 0x39 then some (b.toNat - 0x30)
  else if 0x41 ≤ b ∧ b ≤ 0x46 then some (b.toNat - 0x41 + 10)
  else if 0x61 ≤ b ∧ b ≤ 0x66 then some (b.toNat - 0x61 + 10)
  else none

def hexDigits : Bytes → Nat → Nat
  | [], value => value
  | b :: rest, value =>
    match hexValue b with
    | none => value
    | some digit => hexDigits rest (value * 16 + digit)

/-- `strtol(s, NULL, 16)` -/
def strtolHex (s : Bytes) : Int :=
  let s := s.dropWhile isspace
  let (negative, s) := match s with
    | 0x2d :: rest => (true, rest)
    | 0x2b :: rest => (false, rest)
    | s => (false, s)
  let s := match s with
    | 0x30 :: x :: digit :: rest =>
      if (x = 0x78 ∨ x = 0x58) ∧ (hexValue digit).isSome then digit :: rest
      else 0x30 :: x :: digit :: rest
    | s => s
  if negative then -(hexDigits s 0 : Int) else hexDigits s 0

/-- `substr(3, 2)` throws if the text is shorter than that. -/
def tokenToByte (token : TokenData S) : Option UInt8 :=
  if token.text.length < 3 then none
  else some (UInt8.ofNat ((strtolHex ((token.text.drop 3).take 2)) % 256).toNat)

/-! ## What is copied -/

def blankMark : Bytes := lit "▁"

def escapeWhitespace (text : Bytes) : Bytes := replaceAll text (lit " ") blankMark

def unescapeWhitespace (word : Bytes) : Bytes := replaceAll word blankMark (lit " ")

def hexByte (b : UInt8) : Bytes :=
  let digit := fun n : Nat => (lit "0123456789abcdef").getD n 0
  [digit (b.toNat / 16), digit (b.toNat % 16)]

/-- `none` is the exception for an invalid codepoint, which is not caught here. -/
def decodeCpts (text : Bytes) : List Nat → Option Bytes
  | [] => some []
  | cpt :: rest => do
    let utf8 ← unicodeCptToUtf8 cpt
    let later ← decodeCpts text rest
    match unicodeUtf8ToByte utf8 with
    | some byte => return byte :: later
    | none => return lit "[UNK_BYTE_0x" ++ utf8.flatMap hexByte ++ text ++ lit "]" ++ later

def decodeText (text : Bytes) : Option Bytes := decodeCpts text (unicodeCptsFromUtf8 text)

def TokenData.isNormal (token : TokenData S) : Bool := !token.special && token.has attrNormal

def TokenData.isByte (token : TokenData S) : Bool :=
  !token.special && !token.has attrNormal && token.has attrByte

structure RwkvUnescape where
  escaping : Bool
  hexRemaining : Nat
  hexAcc : UInt8
  output : Bytes

/-- The value of a character in a hexadecimal number, whatever it is; `char` is signed. -/
def rwkvHexValue (c : UInt8) : UInt8 := if 0x61 ≤ c ∧ c < 0x80 then c - 0x61 + 10 else c - 0x30

def unescapeRwkvStep (s : RwkvUnescape) (c : UInt8) : RwkvUnescape :=
  if s.hexRemaining ≠ 0 then
    let hexAcc := (s.hexAcc <<< 4) + rwkvHexValue c
    if s.hexRemaining = 1 then
      { s with hexRemaining := 0, hexAcc := 0, output := s.output ++ [hexAcc] }
    else { s with hexRemaining := s.hexRemaining - 1, hexAcc := hexAcc }
  else if s.escaping then
    if c = 0x74 then { s with escaping := false, output := s.output ++ [0x09] }
    else if c = 0x6e then { s with escaping := false, output := s.output ++ [0x0a] }
    else if c = 0x72 then { s with escaping := false, output := s.output ++ [0x0d] }
    else if c = 0x78 then { s with escaping := false, hexRemaining := 2 }
    else { s with escaping := false, output := s.output ++ [c] }
  else if c = 0x5c then { s with escaping := true }
  else { s with output := s.output ++ [c] }

/-- `llama_unescape_rwkv_token` -/
def unescapeRwkvToken (escaped : Bytes) : Bytes :=
  (escaped.foldl unescapeRwkvStep ⟨false, 0, 0, []⟩).output

/-- What `token_to_piece` has for a token of the table; tokens of the other kinds have no text.
The byte tokens of WPM abort. -/
def pieceText (type : VocabType) (token : TokenData S) : Option Bytes :=
  if type = .rwkv then some (unescapeRwkvToken token.text)
  else if token.has (attrUnknown ||| attrControl ||| attrUserDefined) then some token.text
  else if type = .bpe then if token.has attrNormal then decodeText token.text else some []
  else if token.has attrNormal then some (unescapeWhitespace token.text)
  else if token.has attrByte then
    if type = .wpm then none else (tokenToByte token).map fun byte => [byte]
  else some []

/-! ## Into the caller's buffer -/

/-- `_try_copy`: what it returns and what it writes. -/
def tryCopy (lstrip length : Nat) (piece : Bytes) : Int × Bytes :=
  let rest := piece.drop ((piece.take lstrip).takeWhile (· = 0x20)).length
  if length < rest.length then (-(rest.length : Int), []) else (rest.length, rest)

/-- An empty cache is no cache.  The branch of RWKV does not look at `lstrip`. -/
def tokenToPiece (type : VocabType) (vocab : LlamaVocab S) (cache : List Bytes) (token length : Nat)
    (lstrip : Nat) (special : Bool) : Option (Int × Bytes) :=
  match vocab.getTokenData token with
  | none => none
  | some data =>
    if !special && data.has (attrUnknown ||| attrControl) then some (0, [])
    else if cache ≠ [] then (cache[token]?).map (tryCopy lstrip length)
    else (pieceText type data).map (tryCopy (if type = .rwkv then 0 else lstrip) length)

/-- Asking with a buffer, and again with one of the size that a negative answer tells. -/
def askTwice (call : Nat → Option (Int × List α)) (capacity : Nat) : Option (List α) :=
  match call capacity with
  | none => none
  | some (n, written) =>
    if n < 0 then
      match call (-n).toNat with
      | none => none
      | some (check, written) => if check = -n then some written else none
    else some (written.take n.toNat)

/-- `common_token_to_piece`, and `token_to_piece_for_cache` where there is no cache yet. -/
def commonTokenToPiece (type : VocabType) (vocab : LlamaVocab S) (cache : List Bytes)
    (capacity : Nat) (token : Nat) (special : Bool) : Option Bytes :=
  askTwice (fun length => tokenToPiece type vocab cache token length 0 special) capacity

/-- `cache_token_to_piece`, with the special tokens' texts. -/
def buildCache (type : VocabType) (vocab : LlamaVocab S) (capacity : Nat) : Option (List Bytes) :=
  (List.range vocab.nTokens).mapM fun token =>
    commonTokenToPiece type vocab [] capacity token true

/-! ## The whole text, with the cache or without -/

theorem askTwice_fits {call : Nat → Option (Int × List α)} {result : List α}
    (fits : ∀ capacity, call capacity =
      some (if capacity < result.length then (-(result.length : Int), [])
        else (result.length, result))) (capacity : Nat) :
    askTwice call capacity = some result := by
  unfold askTwice
  rw [fits capacity]
  by_cases small : capacity < result.length
  · have negative : -(result.length : Int) < 0 := by omega
    simp only [if_pos small, if_pos negative, Int.neg_neg, Int.toNat_natCast, fits,
      if_neg (Nat.lt_irrefl _), if_true]
  · have positive : ¬ (result.length : Int) < 0 := by omega
    simp only [if_neg small, if_neg positive, Int.toNat_natCast, List.take_length]

theorem askTwice_none {call : Nat → Option (Int × List α)} {capacity : Nat}
    (stops : call capacity = none) : askTwice call capacity = none := by
  rw [askTwice, stops]

theorem tryCopy_zero (length : Nat) (piece : Bytes) : tryCopy 0 length piece =
    if length < piece.length then (-(piece.length : Int), []) else (piece.length, piece) := by
  rw [tryCopy]
  rfl

/-- The text of a token as the callers see it, without buffers. -/
def pieceOf (type : VocabType) (vocab : LlamaVocab S) (token : Nat) (special : Bool) :
    Option Bytes :=
  (vocab.getTokenData token).bind fun data =>
    if !special && data.has (attrUnknown ||| attrControl) then some [] else pieceText type data

theorem tokenToPiece_plain {type : VocabType} {lstrip : Nat} (strips : type = .rwkv → lstrip = 0)
    (vocab : LlamaVocab S) (token length : Nat) (special : Bool) :
    tokenToPiece type vocab [] token length lstrip special =
      (pieceOf type vocab token special).map (tryCopy lstrip length) := by
  have same : (if type = .rwkv then 0 else lstrip) = lstrip := by
    split_ifs with rwkv
    · exact (strips rwkv).symm
    · rfl
  unfold tokenToPiece pieceOf
  rw [same]
  cases vocab.getTokenData token with
  | none => rfl
  | some data =>
      simp only [Option.bind_some, ne_eq, not_true_eq_false, if_false]
      split_ifs
      · simp [tryCopy]
      · rfl

theorem commonTokenToPiece_plain (type : VocabType) (vocab : LlamaVocab S)
    (capacity token : Nat) (special : Bool) :
    commonTokenToPiece type vocab [] capacity token special = pieceOf type vocab token special := by
  unfold commonTokenToPiece
  simp only [tokenToPiece_plain fun _ => rfl]
  cases pieceOf type vocab token special with
  | none => exact askTwice_none rfl
  | some piece => exact askTwice_fits (fun length => congrArg some (tryCopy_zero length piece)) _

theorem mapM_eq_some {β : Type} {f : α → Option β} : ∀ {xs : List α} {ys : List β},
    xs.mapM f = some ys ↔ List.Forall₂ (fun x y => f x = some y) xs ys := by
  intro xs
  induction xs with
  | nil => intro ys; cases ys <;> simp
  | cons x xs ih =>
      intro ys
      rw [List.mapM_cons]
      cases here : f x with
      | none => simp [here, List.forall₂_cons_left_iff]
      | some y =>
          cases rest : xs.mapM f with
          | none =>
              simp only [Option.bind_eq_bind, Option.bind_some, Option.bind_none, reduceCtorEq,
                false_iff, List.forall₂_cons_left_iff, not_exists, not_and]
              intro z zs _ later
              rw [ih.mpr later] at rest
              cases rest
          | some zs =>
              have later := ih.mp rest
              simp only [Option.bind_eq_bind, Option.bind_some, Option.pure_def, Option.some.injEq]
              constructor
              · rintro rfl
                exact List.Forall₂.cons here later
              · intro both
                cases both with
                | cons first others =>
                    rw [first, Option.some.injEq] at here
                    rw [ih.mpr others, Option.some.injEq] at rest
                    rw [here, rest]

theorem mapM_isSome {β : Type} {f : α → Option β} {xs : List α} (each : ∀ x ∈ xs, f x ≠ none) :
    ∃ ys, xs.mapM f = some ys := by
  induction xs with
  | nil => exact ⟨[], rfl⟩
  | cons x xs ih =>
      obtain ⟨ys, later⟩ := ih fun y member => each y (by simp [member])
      obtain ⟨y, here⟩ := Option.ne_none_iff_exists'.mp (each x (by simp))
      exact ⟨y :: ys, by rw [List.mapM_cons, here, later]; rfl⟩

section Cache

variable {type : VocabType} {vocab : LlamaVocab S} {cache : List Bytes}

theorem pieceOf_true (type : VocabType) (vocab : LlamaVocab S) (token : Nat) :
    pieceOf type vocab token true = (vocab.getTokenData token).bind (pieceText type) := by
  simp [pieceOf]

theorem pieceText_special {type : VocabType} (other : type ≠ .rwkv) {token : TokenData S}
    (special : token.special = true) : pieceText type token = some token.text := by
  have masks : attrUnknown ||| attrControl ||| attrUserDefined =
      attrControl ||| attrUserDefined ||| attrUnknown := by decide
  unfold pieceText
  rw [if_neg other, masks]
  exact if_pos special

theorem pieceText_bpe {token : TokenData S} (plain : token.special = false) :
    pieceText .bpe token = if token.has attrNormal then decodeText token.text else some [] := by
  have masks : attrUnknown ||| attrControl ||| attrUserDefined =
      attrControl ||| attrUserDefined ||| attrUnknown := by decide
  unfold pieceText
  rw [if_neg (by decide), masks, if_neg (by rw [TokenData.special] at plain; simp [plain])]
  rfl

theorem pieceText_spm {token : TokenData S} (plain : token.special = false) :
    pieceText .spm token =
      if token.has attrNormal then some (unescapeWhitespace token.text)
      else if token.has attrByte then (tokenToByte token).map fun byte => [byte]
      else some [] := by
  have masks : attrUnknown ||| attrControl ||| attrUserDefined =
      attrControl ||| attrUserDefined ||| attrUnknown := by decide
  unfold pieceText
  rw [if_neg (by decide), masks, if_neg (by rw [TokenData.special] at plain; simp [plain])]
  rfl

theorem pieceOf_here {id : Nat} {token : TokenData S}
    (here : vocab.getTokenData id = some token) :
    pieceOf type vocab id true = pieceText type token := by
  rw [pieceOf_true, here, Option.bind_some]

theorem buildCache_entry {capacity : Nat} (built : buildCache type vocab capacity = some cache)
    {token : Nat} {data : TokenData S} (here : vocab.getTokenData token = some data) :
    ∃ piece, cache[token]? = some piece ∧ pieceText type data = some piece := by
  have each := mapM_eq_some.mp built
  have inside : token < vocab.nTokens := (List.getElem?_eq_some_iff.mp here).1
  have size := each.length_eq
  rw [List.length_range] at size
  have entry := each.get (i := token) (by simpa using inside) (by omega)
  simp only [List.get_eq_getElem, List.getElem_range, commonTokenToPiece_plain, pieceOf_true, here,
    Option.bind_some] at entry
  exact ⟨_, List.getElem?_eq_getElem (by omega), entry⟩

theorem tokenToPiece_cached {capacity : Nat} (built : buildCache type vocab capacity = some cache)
    (token length : Nat) {lstrip : Nat} (special : Bool) (strips : type = .rwkv → lstrip = 0) :
    tokenToPiece type vocab cache token length lstrip special =
      tokenToPiece type vocab [] token length lstrip special := by
  have same : (if type = .rwkv then 0 else lstrip) = lstrip := by
    split_ifs with rwkv
    · exact (strips rwkv).symm
    · rfl
  unfold tokenToPiece
  rw [same]
  cases here : vocab.getTokenData token with
  | none => rfl
  | some data =>
      obtain ⟨piece, entry, text⟩ := buildCache_entry built here
      have nonempty : cache ≠ [] := by
        rintro rfl
        cases entry
      simp [nonempty, entry, text]

theorem commonTokenToPiece_cached {size : Nat} (built : buildCache type vocab size = some cache)
    (capacity token : Nat) (special : Bool) :
    commonTokenToPiece type vocab cache capacity token special =
      pieceOf type vocab token special := by
  rw [← commonTokenToPiece_plain type vocab capacity token special]
  unfold commonTokenToPiece
  simp only [tokenToPiece_cached built _ _ _ fun _ => rfl]

theorem buildCache_isSome (texts : ∀ token ∈ vocab.idToToken, pieceText type token ≠ none)
    (size : Nat) : ∃ cache, buildCache type vocab size = some cache := by
  apply mapM_isSome
  intro token member
  have here : vocab.getTokenData token = some _ :=
    List.getElem?_eq_getElem (List.mem_range.mp member)
  rw [commonTokenToPiece_plain, pieceOf_true, here, Option.bind_some]
  exact texts _ (List.mem_of_getElem? here)

/-- The cache changes nothing but the meaning of `lstrip` for RWKV, and it is missing only where
some token has no text: a byte token whose name is too short, or a text that does not decode. -/
theorem buildCache_transparent (type : VocabType) (vocab : LlamaVocab S) (size : Nat) :
    match buildCache type vocab size with
    | none => ∃ token ∈ vocab.idToToken, pieceText type token = none
    | some cache => (∀ token ∈ vocab.idToToken, pieceText type token ≠ none) ∧
        (∀ token length lstrip special, (type = .rwkv → lstrip = 0) →
          tokenToPiece type vocab cache token length lstrip special =
            tokenToPiece type vocab [] token length lstrip special) ∧
        ∀ capacity token special, commonTokenToPiece type vocab cache capacity token special =
          pieceOf type vocab token special := by
  cases built : buildCache type vocab size with
  | none =>
      by_contra all
      push Not at all
      obtain ⟨cache, stands⟩ := buildCache_isSome all size
      rw [built] at stands
      cases stands
  | some cache =>
      refine ⟨?_, fun token length _ => tokenToPiece_cached built token length,
        commonTokenToPiece_cached built⟩
      intro data member
      obtain ⟨token, here⟩ := List.getElem?_of_mem member
      obtain ⟨piece, _, text⟩ := buildCache_entry built here
      rw [text]
      exact Option.some_ne_none piece

end Cache

end MineGPT.Vocab
