import MineGPT.Lib.ByteString
import Mathlib.Data.List.Dedup
import Mathlib.Logic.Function.Basic

/-!
# The vocabulary

The token table as `llama_vocab::impl::load` builds it from the model file:
`id_to_token`, and `token_to_id`, a map that the loop over the words fills.  The
assertion that both have the same size is what makes them inverse.
-/

set_option autoImplicit false

namespace MineGPT.Vocab

open MineGPT.Lib.ByteString

variable {S : Type}

/-! ## Attributes -/

abbrev TokenAttr := UInt32

def attrUndefined : TokenAttr := 0
def attrUnknown : TokenAttr := 0x1
def attrUnused : TokenAttr := 0x2
def attrNormal : TokenAttr := 0x4
def attrControl : TokenAttr := 0x8
def attrUserDefined : TokenAttr := 0x10
def attrByte : TokenAttr := 0x20
def attrLstrip : TokenAttr := 0x80
def attrRstrip : TokenAttr := 0x100

/-- The enumeration `llama_token_type` of the file, as an attribute. -/
def attrOfType : Int → TokenAttr
  | 1 => attrNormal
  | 2 => attrUnknown
  | 3 => attrControl
  | 4 => attrUserDefined
  | 5 => attrUnused
  | 6 => attrByte
  | _ => attrUndefined

structure TokenData (S : Type) where
  text : Bytes
  score : S
  attr : TokenAttr

/-- `attr & mask` as a condition. -/
def TokenData.has (token : TokenData S) (mask : TokenAttr) : Bool := token.attr &&& mask != 0

/-! ## Loading the table -/

/-- `token_to_id`: a word that comes twice stands for its last index. -/
def tokenToId (words : List Bytes) : Bytes → Option Nat :=
  words.zipIdx.foldl (fun (map : Bytes → Option Nat) entry => Function.update map entry.1 (some entry.2))
    fun _ => none

def wordAt (i : Nat) (word : Bytes) : Bytes :=
  if word = [] then lit "[EMPTY_" ++ lit (toString i) ++ lit "]" else word

def loadToken [Zero S] (scores : Option (Nat → S)) (toktypes : Option (Nat → Int)) (i : Nat)
    (word : Bytes) : TokenData S :=
  { text := wordAt i word
    score := match scores with
      | none => 0
      | some scores => scores i
    attr := match toktypes with
      | none => attrNormal
      | some toktypes => attrOfType (toktypes i) }

structure LlamaVocab (S : Type) where
  idToToken : List (TokenData S)
  distinct : (idToToken.map TokenData.text).Nodup
  nonempty : ∀ token ∈ idToToken, token.text ≠ []

def loadTable [Zero S] (words : List Bytes) (scores : Option (Nat → S))
    (toktypes : Option (Nat → Int)) : List (TokenData S) :=
  words.zipIdx.map fun entry => loadToken scores toktypes entry.2 entry.1

theorem wordAt_ne_nil (i : Nat) (word : Bytes) : wordAt i word ≠ [] := by
  unfold wordAt
  split_ifs with empty
  · intro none
    have first := (List.append_eq_nil_iff.mp (List.append_eq_nil_iff.mp none).1).1
    rw [lit_eq_nil_iff] at first
    exact absurd first (by decide)
  · exact empty

theorem nodup_of_size {words : List Bytes} (size : words.length = words.dedup.length) :
    words.Nodup := by
  rw [← List.dedup_eq_self]
  exact (List.dedup_sublist words).eq_of_length size.symm

/-- `none` is the assertion `id_to_token.size() == token_to_id.size()` failing. -/
def load [Zero S] (words : List Bytes) (scores : Option (Nat → S))
    (toktypes : Option (Nat → Int)) : Option (LlamaVocab S) :=
  let table := loadTable words scores toktypes
  if size : (table.map TokenData.text).length = (table.map TokenData.text).dedup.length then
    some
      { idToToken := table
        distinct := nodup_of_size size
        nonempty := by
          intro token member
          obtain ⟨entry, _, rfl⟩ := List.mem_map.mp member
          exact wordAt_ne_nil _ _ }
  else none

/-! ## Looking tokens up -/

def LlamaVocab.nTokens (vocab : LlamaVocab S) : Nat := vocab.idToToken.length

/-- `none` is `LLAMA_TOKEN_NULL`. -/
def LlamaVocab.textToToken (vocab : LlamaVocab S) : Bytes → Option Nat :=
  tokenToId (vocab.idToToken.map TokenData.text)

/-- `at` throws out of range. -/
def LlamaVocab.getTokenData (vocab : LlamaVocab S) (id : Nat) : Option (TokenData S) := vocab.idToToken[id]?

theorem foldl_update (word : Bytes) : ∀ (entries : List (Bytes × Nat)) (map : Bytes → Option Nat),
    (entries.map Prod.fst).Nodup →
    entries.foldl (fun (map : Bytes → Option Nat) entry =>
        Function.update map entry.1 (some entry.2)) map word =
      match entries.find? fun entry => entry.1 = word with
      | none => map word
      | some entry => some entry.2 := by
  intro entries
  induction entries with
  | nil => intro map _; rfl
  | cons head rest ih =>
      intro map distinct
      obtain ⟨absent, distinct⟩ := List.nodup_cons.mp distinct
      rw [List.foldl_cons, ih _ distinct, List.find?_cons]
      by_cases here : head.1 = word
      · have notLater : rest.find? (fun entry => entry.1 = word) = none := by
          rw [List.find?_eq_none]
          intro entry member same
          have equal : entry.1 = head.1 := (of_decide_eq_true same).trans here.symm
          exact absent (List.mem_map.mpr ⟨entry, member, equal⟩)
        simp [here, notLater]
      · cases later : rest.find? fun entry => entry.1 = word with
        | none => simp [here, Function.update_of_ne (Ne.symm here)]
        | some entry => simp [here]

theorem tokenToId_eq_some {words : List Bytes} (distinct : words.Nodup) {word : Bytes} {id : Nat} :
    tokenToId words word = some id ↔ words[id]? = some word := by
  have firsts : words.zipIdx.map Prod.fst = words := by simp
  rw [tokenToId, foldl_update word words.zipIdx _ (by rwa [firsts])]
  cases found : words.zipIdx.find? fun entry => entry.1 = word with
  | none =>
      simp only [reduceCtorEq, false_iff]
      intro here
      have member : (word, id) ∈ words.zipIdx := List.mem_zipIdx_iff_getElem?.mpr here
      have missed := List.find?_eq_none.mp found _ member
      simp at missed
  | some entry =>
      obtain ⟨word', id'⟩ := entry
      have same : word' = word := by simpa using List.find?_some found
      have place : words[id']? = some word := by
        rw [← same]
        exact List.mem_zipIdx_iff_getElem?.mp (List.mem_of_find?_eq_some found)
      simp only [Option.some.injEq]
      constructor
      · rintro rfl
        exact place
      · intro here
        obtain ⟨inside, at'⟩ := List.getElem?_eq_some_iff.mp place
        obtain ⟨inside', here'⟩ := List.getElem?_eq_some_iff.mp here
        exact (List.Nodup.getElem_inj_iff distinct).mp (at'.trans here'.symm)

theorem LlamaVocab.textToToken_iff (vocab : LlamaVocab S) {text : Bytes} {id : Nat} :
    vocab.textToToken text = some id ↔
      ∃ token, vocab.getTokenData id = some token ∧ token.text = text := by
  rw [LlamaVocab.textToToken, tokenToId_eq_some vocab.distinct, List.getElem?_map,
    Option.map_eq_some_iff]
  rfl

theorem LlamaVocab.textToToken_of_mem (vocab : LlamaVocab S) {token : TokenData S}
    (member : token ∈ vocab.idToToken) : vocab.textToToken token.text ≠ none := by
  obtain ⟨id, here⟩ := List.getElem?_of_mem member
  rw [vocab.textToToken_iff.mpr ⟨token, here, rfl⟩]
  exact Option.some_ne_none id

theorem LlamaVocab.textToToken_lt (vocab : LlamaVocab S) {text : Bytes} {id : Nat}
    (known : vocab.textToToken text = some id) : id < vocab.nTokens := by
  obtain ⟨token, here, _⟩ := vocab.textToToken_iff.mp known
  exact (List.getElem?_eq_some_iff.mp here).1

theorem LlamaVocab.text_ne_nil (vocab : LlamaVocab S) {id : Nat} {token : TokenData S}
    (here : vocab.getTokenData id = some token) : token.text ≠ [] :=
  vocab.nonempty token (List.mem_of_getElem? here)

/-! ## Special tokens -/

def LlamaVocab.tokenText (vocab : LlamaVocab S) (id : Nat) : Bytes :=
  match vocab.getTokenData id with
  | none => []
  | some token => token.text

/-- The tokens that are looked for in a text before it is tokenized. -/
def TokenData.special (token : TokenData S) : Bool :=
  token.has (attrControl ||| attrUserDefined ||| attrUnknown)

/-- `cache_special_tokens`, the longest first.  `std::sort` leaves the order of
tokens of one length open. -/
structure SpecialCache (vocab : LlamaVocab S) where
  ids : List Nat
  perm : ids.Perm ((List.range vocab.nTokens).filter fun id =>
    (vocab.getTokenData id).any TokenData.special)
  sorted : ids.Pairwise fun a b => (vocab.tokenText b).length ≤ (vocab.tokenText a).length

end MineGPT.Vocab
