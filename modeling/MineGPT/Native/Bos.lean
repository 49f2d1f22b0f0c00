import MineGPT.Lib.Machine
import MineGPT.Native.Admission

/-!
# Inserted tokens

`startCompletion` tokenizes the slice of every turn with `add_special`, so each
prompt gets the vocabulary's own BOS token in front (and EOS or SEP behind).
The KV cache keeps all turns, so the tokens decoded into it have one inserted
BOS at position 0 only as long as no second prompt is decoded.

A ledger beside the session records, for each batch decoded into the cache,
where its tokens came from.
-/

set_option autoImplicit false

namespace MineGPT.Native

open MineGPT.Lib MineGPT.Lib.ByteString MineGPT.Chat MineGPT.Kv LLMInference
open MineGPT.Lib.Machine (Visits StepsMeet runSteps)

/-! ## Tokenizing -/

inductive LlamaVocabType where
  | none
  | spm
  | bpe
  | wpm
  | ugm
  | rwkv
  deriving DecidableEq, Repr

inductive Origin where
  | bos
  /-- EOS or SEP, put behind the text. -/
  | closing
  | text
  | sampled
  deriving DecidableEq, Repr

structure SourcedToken where
  token : Int
  origin : Origin
  deriving DecidableEq, Repr

def SourcedToken.inserted (t : SourcedToken) : Bool :=
  match t.origin with
  | .bos => true
  | .closing => true
  | .text => false
  | .sampled => false

def llamaTokenNull : Int := -1

/-- What `tokenize` reads of a vocabulary.  Splitting the text at special tokens
and tokenizing the fragments is a parameter. -/
structure LlamaVocab where
  type : LlamaVocabType
  addBos : Bool
  addEos : Bool
  specialBosId : Int
  specialEosId : Int
  specialSepId : Int
  fragmentTokens : Bool → Bytes → List Int

namespace LlamaVocab

/-- `output.push_back(id)` behind its `GGML_ASSERT`. -/
def pushSpecial (adds : Bool) (id : Int) (origin : Origin) : Option (List SourcedToken) :=
  if adds then
    if id = llamaTokenNull then none else some [{ token := id, origin := origin }]
  else some []

def surround (front : Option (List SourcedToken)) (body : List SourcedToken)
    (behind : Option (List SourcedToken)) : Option (List SourcedToken) :=
  front.bind fun opening => behind.map fun closing => opening ++ body ++ closing

def bodyTokens (vocab : LlamaVocab) (parseSpecial : Bool) (rawText : Bytes) : List SourcedToken :=
  (vocab.fragmentTokens parseSpecial rawText).map fun token => { token := token, origin := .text }

/-- `llama_vocab::impl::tokenize`, with the origin of each token; `none` where it
aborts. -/
def tokenize (vocab : LlamaVocab) (rawText : Bytes) (addSpecial parseSpecial : Bool) :
    Option (List SourcedToken) :=
  let body := vocab.bodyTokens parseSpecial rawText
  let bosAndEos :=
    surround (pushSpecial (addSpecial && vocab.addBos) vocab.specialBosId .bos) body
      (pushSpecial (addSpecial && vocab.addEos) vocab.specialEosId .closing)
  match vocab.type with
  | .spm => bosAndEos
  | .bpe => bosAndEos
  | .wpm =>
    surround (pushSpecial addSpecial vocab.specialBosId .bos) body
      (pushSpecial addSpecial vocab.specialSepId .closing)
  | .ugm => bosAndEos
  | .rwkv => some body
  | .none => none

/-- `common_tokenize(vocab, prompt, true, true)` puts a BOS token in front. -/
def AddsBos (vocab : LlamaVocab) : Prop :=
  match vocab.type with
  | .spm => vocab.addBos = true
  | .bpe => vocab.addBos = true
  | .wpm => True
  | .ugm => vocab.addBos = true
  | .rwkv => False
  | .none => False

/-- The tokenizer of the model is this vocabulary's, as far as it neither aborts nor
throws. -/
def Tokenizes (vocab : LlamaVocab) (model : LlamaModel) : Prop :=
  ∀ prompt tokens result, vocab.tokenize prompt true true = some tokens →
    model.commonTokenize prompt = .ok result → result = tokens.map SourcedToken.token

end LlamaVocab

/-- A BOS token, then tokens of which none is an inserted BOS. -/
def StartsWithBos (prompt : List SourcedToken) : Prop :=
  ∃ first rest, prompt = first :: rest ∧ first.origin = .bos ∧ ∀ t ∈ rest, t.origin ≠ .bos

theorem startsWithBos_surround {vocab : LlamaVocab} {text : Bytes} {addClosing : Bool}
    {bos closing : Int} {prompt : List SourcedToken}
    (built : LlamaVocab.surround (LlamaVocab.pushSpecial true bos .bos)
      (vocab.bodyTokens true text) (LlamaVocab.pushSpecial addClosing closing .closing) =
      some prompt) : StartsWithBos prompt := by
  obtain ⟨opening, first, built⟩ := Option.bind_eq_some_iff.mp built
  obtain ⟨behind, last, rfl⟩ := Option.map_eq_some_iff.mp built
  simp only [LlamaVocab.pushSpecial, if_true] at first
  split at first <;> cases first
  refine ⟨_, _, rfl, rfl, ?_⟩
  intro t member
  rcases List.mem_append.mp member with inBody | inClosing
  · obtain ⟨token, _, rfl⟩ := List.mem_map.mp inBody
    simp
  · simp only [LlamaVocab.pushSpecial] at last
    split at last
    · split at last <;> cases last
      rw [List.mem_singleton.mp inClosing]
      simp
    · cases last
      simp at inClosing

theorem LlamaVocab.startsWithBos {vocab : LlamaVocab} (adds : vocab.AddsBos) {text : Bytes}
    {prompt : List SourcedToken} (tokenized : vocab.tokenize text true true = some prompt) :
    StartsWithBos prompt := by
  cases type : vocab.type <;> simp only [AddsBos, type] at adds <;>
    simp only [tokenize, type, adds, Bool.and_self, Bool.true_and] at tokenized
  case spm | bpe | wpm | ugm => exact startsWithBos_surround tokenized

/-! ## The ledger -/

structure CachedBatch where
  /-- The cells in use when the batch was decoded. -/
  usedBefore : Nat
  tokens : List SourcedToken
  deriving DecidableEq, Repr

structure Ledger where
  session : LLMInference
  /-- The prompt that `_promptTokens` holds, with origins. -/
  prompt : List SourcedToken
  /-- The batches decoded into the KV cache since `loadModel`. -/
  batches : List CachedBatch

namespace Ledger

def init (s : LLMInference) : Ledger := { session := s, prompt := [], batches := [] }

def decoded (l : Ledger) : List SourcedToken := l.batches.flatMap CachedBatch.tokens

/-- The tokens that the next `llama_decode` is given, with origins. -/
def batchTokens (l : Ledger) : List SourcedToken :=
  match l.session.batch.token with
  | .null => []
  | .promptTokens => l.prompt
  | .currToken => [{ token := l.session.currToken, origin := .sampled }]

def batch (l : Ledger) : CachedBatch :=
  { usedBefore := l.session.ctx.kv.getUsedCells, tokens := l.batchTokens }

/-- `completionLoop` passes its check and decodes its batch into the KV cache;
with non-causal attention nothing is put there. -/
def Caches (oracle : LoopOracle) (l : Ledger) : Prop :=
  l.session.contextCheck ∧
    (l.session.llamaDecode oracle.toDecodeOracle).outcome = .returned 0 ∧
    l.session.model.causalAttn = true

instance (oracle : LoopOracle) (l : Ledger) : Decidable (l.Caches oracle) :=
  inferInstanceAs (Decidable (_ ≤ _ ∧ _ ∧ _))

/-- `none` where the tokenizer aborts the process. -/
def startCompletion (vocab : LlamaVocab) (query : CString) (l : Ledger) : Option Ledger :=
  match l.session.startCompletion query with
  | (.ok prompt, s) =>
    (vocab.tokenize prompt true true).map fun tokens => { l with session := s, prompt := tokens }
  | (.error _, s) => some { l with session := s }

def completionLoop (oracle : LoopOracle) (l : Ledger) : Ledger :=
  { l with
    session := (l.session.completionLoop oracle).2
    batches := if l.Caches oracle then l.batches ++ [l.batch] else l.batches }

def step (vocab : LlamaVocab) (l : Ledger) : NativeCall → Option Ledger
  | .startCompletion query => l.startCompletion vocab query
  | .completionLoop oracle => some (l.completionLoop oracle)
  | .addChatMessage message role =>
    some { l with session := l.session.addChatMessage message role }
  | .stopCompletion => some { l with session := l.session.stopCompletion.2 }

end Ledger

/-- The inserted BOS is the first token of all, and a batch decoded into a cache
that is not empty has no inserted token. -/
structure BosAtStart (l : Ledger) : Prop where
  first : ∀ i t, l.decoded[i]? = some t → t.origin = .bos → i = 0
  later : ∀ batch ∈ l.batches, batch.usedBefore ≠ 0 → ∀ t ∈ batch.tokens, t.inserted = false

/-- The condition on a call: a prompt is decoded before all other tokens and into
an empty cache only. -/
def FirstPrompt (l : Ledger) : NativeCall → Prop
  | .completionLoop oracle =>
    l.session.batch.token = .promptTokens → l.Caches oracle →
      l.decoded = [] ∧ l.session.ctx.kv.getUsedCells = 0
  | _ => True

/-! ## The ledger and the session -/

theorem completionLoop_batch (oracle : LoopOracle) (s : LLMInference) :
    (s.completionLoop oracle).2.promptTokens = s.promptTokens ∧
      ((s.completionLoop oracle).2.batch = s.batch ∨
        (s.completionLoop oracle).2.batch.token = .currToken) := by
  obtain ⟨used, kv, frame⟩ := decodeBatch_frame oracle.toDecodeOracle s
  simp only [completionLoop]
  cases outcome : s.decodeBatch oracle.toDecodeOracle with
  | mk result decoded =>
      rw [outcome] at frame
      obtain rfl : decoded = _ := frame
      cases result with
      | error failure => exact ⟨rfl, Or.inl rfl⟩
      | ok passed =>
          simp only [takeToken]
          split
          · exact ⟨rfl, Or.inl rfl⟩
          · split <;> exact ⟨rfl, Or.inr rfl⟩

theorem Ledger.startCompletion_frame {vocab : LlamaVocab} {query : CString} {l next : Ledger}
    (taken : l.startCompletion vocab query = some next) :
    next.session = (l.session.startCompletion query).2 ∧ next.batches = l.batches := by
  unfold Ledger.startCompletion at taken
  cases call : l.session.startCompletion query with
  | mk result s =>
      rw [call] at taken
      cases result with
      | error failure =>
          obtain rfl := Option.some.inj taken
          exact ⟨rfl, rfl⟩
      | ok prompt =>
          obtain ⟨_, _, rfl⟩ := Option.map_eq_some_iff.mp taken
          exact ⟨rfl, rfl⟩

structure Ledger.Sourced (model : LlamaModel) (l : Ledger) : Prop where
  model : l.session.model = model
  prompt : l.session.batch.token = .promptTokens →
    StartsWithBos l.prompt ∧ l.prompt.map SourcedToken.token = l.session.promptTokens ∧
      l.session.batch.nTokens = l.prompt.length

theorem Ledger.Sourced.batchTokens {model : LlamaModel} {l : Ledger} (sourced : l.Sourced model) :
    l.batchTokens.map SourcedToken.token = l.session.batchTokens := by
  cases pointer : l.session.batch.token with
  | null => simp [Ledger.batchTokens, LLMInference.batchTokens, pointer]
  | currToken => simp [Ledger.batchTokens, LLMInference.batchTokens, pointer]
  | promptTokens =>
      obtain ⟨_, tokens, count⟩ := sourced.prompt pointer
      simp [Ledger.batchTokens, LLMInference.batchTokens, pointer, ← tokens, count]

theorem Ledger.Sourced.keep {model : LlamaModel} {l next : Ledger} (sourced : l.Sourced model)
    (prompt : next.prompt = l.prompt) (setup : next.session.model = l.session.model)
    (promptTokens : next.session.promptTokens = l.session.promptTokens)
    (batch : next.session.batch = l.session.batch ∨ next.session.batch.token = .currToken) :
    next.Sourced model where
  model := setup.trans sourced.model
  prompt := by
    intro pointer
    rcases batch with same | sampled
    · rw [prompt, promptTokens, same]
      exact sourced.prompt (same ▸ pointer)
    · rw [sampled] at pointer
      cases pointer

theorem sourced_step {vocab : LlamaVocab} {model : LlamaModel} (adds : vocab.AddsBos)
    (tokenizes : vocab.Tokenizes model) {l next : Ledger} {call : NativeCall}
    (sourced : l.Sourced model) (taken : l.step vocab call = some next) : next.Sourced model := by
  cases call with
  | addChatMessage message role =>
      obtain rfl := Option.some.inj taken
      exact sourced.keep rfl rfl rfl (Or.inl rfl)
  | stopCompletion =>
      obtain rfl := Option.some.inj taken
      have frame := stopCompletion_frame l.session
      refine sourced.keep rfl frame.model ?_ (Or.inl frame.batch)
      simp only [LLMInference.stopCompletion]
      split <;> split <;> rfl
  | completionLoop oracle =>
      obtain rfl := Option.some.inj taken
      obtain ⟨promptTokens, batch⟩ := completionLoop_batch oracle l.session
      exact sourced.keep rfl (completionLoop_frame oracle l.session).model promptTokens batch
  | startCompletion query =>
      have frame := startCompletion_frame query l.session
      simp only [Ledger.step] at taken
      unfold Ledger.startCompletion at taken
      rcases startCompletion_outcome query l.session with
        ⟨failure, t, threw, batch, promptTokens, _⟩ | ⟨prompt, t, returned, _, promptTokens, batch⟩
      · rw [threw] at taken frame
        obtain rfl := Option.some.inj taken
        exact sourced.keep rfl frame.model promptTokens (Or.inl batch)
      · rw [returned] at taken frame
        obtain ⟨tokens, tokenized, rfl⟩ := Option.map_eq_some_iff.mp taken
        rw [sourced.model] at promptTokens
        have same := tokenizes prompt tokens _ tokenized promptTokens
        refine ⟨frame.model.trans sourced.model, fun _ => ?_⟩
        refine ⟨vocab.startsWithBos adds tokenized, same.symm, ?_⟩
        rw [batch, same, List.length_map]

/-! ## What the ledger counts

On a causal transformer the cells in use are the tokens decoded so far, so the
cache is empty exactly as long as nothing was decoded.
-/

structure Ledger.Counted (model : LlamaModel) (l : Ledger) : Prop extends l.Sourced model where
  log : LogSession l.session
  used : l.session.ctx.kv.getUsedCells = l.decoded.length

theorem Ledger.decoded_completionLoop {oracle : LoopOracle} {l : Ledger}
    (caches : l.Caches oracle) : (l.completionLoop oracle).decoded = l.decoded ++ l.batchTokens := by
  simp [Ledger.decoded, Ledger.completionLoop, caches, Ledger.batch]

theorem Ledger.decoded_refused {oracle : LoopOracle} {l : Ledger} (refused : ¬ l.Caches oracle) :
    (l.completionLoop oracle).decoded = l.decoded := by
  simp [Ledger.decoded, Ledger.completionLoop, refused]

theorem Ledger.Counted.used_completionLoop {model : LlamaModel} {l : Ledger}
    (counted : l.Counted model) (oracle : LoopOracle) :
    (l.session.completionLoop oracle).2.ctx.kv.getUsedCells =
      (l.completionLoop oracle).decoded.length := by
  have used := counted.used
  by_cases check : l.session.contextCheck
  case neg =>
    rw [Ledger.decoded_refused fun caches => check caches.1, ← used]
    simp only [LLMInference.completionLoop, decodeBatch_of_not_check check]
  case pos =>
    have admitted := counted.log.admissionSound check oracle.toDecodeOracle
    rw [completionLoop_kv check]
    by_cases done : (l.session.llamaDecode oracle.toDecodeOracle).outcome = .returned 0
    · have length : l.batchTokens.length = l.session.batch.nTokens := by
        rw [← counted.log.batch, ← counted.batchTokens, List.length_map]
      rw [Ledger.decoded_completionLoop ⟨check, done, counted.log.causal⟩, List.length_append,
        length, ← used]
      exact admitted.grows done
    · rw [Ledger.decoded_refused fun caches => done caches.2.1, admitted.restores done]
      exact used

theorem Ledger.Counted.step {vocab : LlamaVocab} {model : LlamaModel} (adds : vocab.AddsBos)
    (tokenizes : vocab.Tokenizes model) {l next : Ledger} {call : NativeCall}
    (counted : l.Counted model) (taken : l.step vocab call = some next) : next.Counted model := by
  have sourced := sourced_step adds tokenizes counted.toSourced taken
  cases call with
  | addChatMessage message role =>
      obtain rfl := Option.some.inj taken
      exact ⟨sourced, counted.log.run (.addChatMessage message role), counted.used⟩
  | stopCompletion =>
      obtain rfl := Option.some.inj taken
      refine ⟨sourced, counted.log.run .stopCompletion, ?_⟩
      rw [(stopCompletion_frame l.session).ctx]
      exact counted.used
  | completionLoop oracle =>
      obtain rfl := Option.some.inj taken
      exact ⟨sourced, counted.log.run (.completionLoop oracle), counted.used_completionLoop oracle⟩
  | startCompletion query =>
      obtain ⟨session, batches⟩ := Ledger.startCompletion_frame taken
      refine ⟨sourced, ?_, ?_⟩
      · rw [session]
        exact counted.log.run (.startCompletion query)
      · rw [session, Ledger.decoded, batches, (LLMInference.startCompletion_frame query l.session).ctx]
        exact counted.used

theorem Ledger.counted_runs {vocab : LlamaVocab} {s : LLMInference} (log : LogSession s)
    (unused : s.ctx.kv.getUsedCells = 0) (batch : s.batch.token = .null)
    (adds : vocab.AddsBos) (tokenizes : vocab.Tokenizes s.model) (calls : List NativeCall) :
    Visits (Ledger.step vocab) (Ledger.Counted s.model) (Ledger.init s) calls := by
  have start : (Ledger.init s).Counted s.model :=
    ⟨⟨rfl, fun pointer => by simp [Ledger.init, batch] at pointer⟩, log, unused⟩
  exact Machine.visits_of_keep (fun _ _ _ here taken => here.step adds tokenizes taken) start

/-! ## Where the inserted tokens are -/

theorem Ledger.batches_completionLoop {oracle : LoopOracle} {l : Ledger}
    (caches : l.Caches oracle) : (l.completionLoop oracle).batches = l.batches ++ [l.batch] := by
  simp [Ledger.completionLoop, caches]

theorem BosAtStart.same {l next : Ledger} (before : BosAtStart l)
    (same : next.batches = l.batches) : BosAtStart next where
  first := by
    rw [Ledger.decoded, same]
    exact before.first
  later := by
    rw [same]
    exact before.later

theorem BosAtStart.append {oracle : LoopOracle} {l : Ledger} (before : BosAtStart l)
    (caches : l.Caches oracle) (sampled : ∀ t ∈ l.batchTokens, t.inserted = false) :
    BosAtStart (l.completionLoop oracle) where
  first := by
    rw [Ledger.decoded_completionLoop caches]
    intro i t at_i bos
    rcases Nat.lt_or_ge i l.decoded.length with inside | behind
    · rw [List.getElem?_append_left inside] at at_i
      exact before.first i t at_i bos
    · rw [List.getElem?_append_right behind] at at_i
      have plain := sampled t (List.mem_of_getElem? at_i)
      rw [SourcedToken.inserted, bos] at plain
      cases plain
  later := by
    rw [Ledger.batches_completionLoop caches]
    intro batch member used
    rcases List.mem_append.mp member with earlier | new
    · exact before.later batch earlier used
    · rw [List.mem_singleton.mp new]
      exact sampled

theorem BosAtStart.prompt_iff {oracle : LoopOracle} {l : Ledger} (before : BosAtStart l)
    (caches : l.Caches oracle) (prompt : StartsWithBos l.batchTokens) :
    BosAtStart (l.completionLoop oracle) ↔
      l.decoded = [] ∧ l.session.ctx.kv.getUsedCells = 0 := by
  obtain ⟨bos, rest, tokens, inserted, others⟩ := prompt
  constructor
  · rintro ⟨first, later⟩
    rw [Ledger.decoded_completionLoop caches, tokens] at first
    rw [Ledger.batches_completionLoop caches] at later
    refine ⟨?_, ?_⟩
    · refine List.length_eq_zero_iff.mp (first l.decoded.length bos ?_ inserted)
      simp
    · by_contra used
      have plain := later l.batch (by simp) used bos
        (by rw [Ledger.batch, tokens]; exact List.mem_cons_self)
      rw [SourcedToken.inserted, inserted] at plain
      cases plain
  · rintro ⟨none, unused⟩
    refine ⟨?_, ?_⟩
    · rw [Ledger.decoded_completionLoop caches, none, List.nil_append, tokens]
      intro i t at_i origin
      cases i with
      | zero => rfl
      | succ i =>
          have member := List.mem_of_getElem? (List.getElem?_cons_succ ▸ at_i)
          exact absurd origin (others t member)
    · rw [Ledger.batches_completionLoop caches]
      intro batch member used
      rcases List.mem_append.mp member with earlier | new
      · exact before.later batch earlier used
      · rw [List.mem_singleton.mp new] at used
        exact absurd unused used

theorem bosAtStart_step_iff {vocab : LlamaVocab} {model : LlamaModel} {l next : Ledger}
    {call : NativeCall} (sourced : l.Sourced model) (before : BosAtStart l)
    (taken : l.step vocab call = some next) : BosAtStart next ↔ FirstPrompt l call := by
  cases call with
  | addChatMessage message role =>
      obtain rfl := Option.some.inj taken
      exact iff_of_true (before.same rfl) trivial
  | stopCompletion =>
      obtain rfl := Option.some.inj taken
      exact iff_of_true (before.same rfl) trivial
  | startCompletion query =>
      have same := (Ledger.startCompletion_frame taken).2
      exact iff_of_true (before.same same) trivial
  | completionLoop oracle =>
      obtain rfl := Option.some.inj taken
      by_cases caches : l.Caches oracle
      case neg =>
        have same : (l.completionLoop oracle).batches = l.batches := by
          simp [Ledger.completionLoop, caches]
        exact iff_of_true (before.same same) fun _ here => absurd here caches
      case pos =>
        cases pointer : l.session.batch.token with
        | promptTokens =>
            have prompt : StartsWithBos l.batchTokens := by
              rw [Ledger.batchTokens, pointer]
              exact (sourced.prompt pointer).1
            rw [before.prompt_iff caches prompt]
            simp [FirstPrompt, pointer, caches]
        | null =>
            refine iff_of_true (before.append caches ?_) (by simp [FirstPrompt, pointer])
            simp [Ledger.batchTokens, pointer]
        | currToken =>
            refine iff_of_true (before.append caches ?_) (by simp [FirstPrompt, pointer])
            simp [Ledger.batchTokens, pointer, SourcedToken.inserted]

/-- In every state of a run the inserted BOS is at the start only, exactly when
every prompt decoded in it is the first thing the cache gets. -/
theorem bosAtStart_iff {oracle : LoadOracle} {arguments : LoadArguments}
    {initial : List LlamaChatMessage} {s : LLMInference} {vocab : LlamaVocab}
    (opened : openSession oracle arguments initial = .ok s) (adds : vocab.AddsBos)
    (tokenizes : vocab.Tokenizes s.model) (calls : List NativeCall) :
    Visits (Ledger.step vocab) BosAtStart (Ledger.init s) calls ↔
      StepsMeet (Ledger.step vocab) FirstPrompt (Ledger.init s) calls := by
  have batch : s.batch.token = .null := by
    obtain ⟨model, rfl⟩ := openSession_eq_ok opened
    rfl
  have sourced : (Ledger.init s).Sourced s.model :=
    ⟨rfl, fun pointer => by simp [Ledger.init, batch] at pointer⟩
  have start : BosAtStart (Ledger.init s) := ⟨by simp [Ledger.init, Ledger.decoded],
    by simp [Ledger.init]⟩
  exact Machine.visits_iff_stepsMeet
    (fun _ _ _ here taken => sourced_step adds tokenizes here taken)
    (fun _ _ _ here before taken => bosAtStart_step_iff here before taken) sourced start

/-! ## A second turn -/

def bosVocab : LlamaVocab where
  type := .spm
  addBos := true
  addEos := false
  specialBosId := 3
  specialEosId := 2
  specialSepId := llamaTokenNull
  fragmentTokens := fun _ _ => [0]

def bosModel : LlamaModel :=
  { smallModel (lit "Hello") with nTokens := 4, commonTokenize := fun _ => .ok [3, 0] }

def bosSession : LLMInference :=
  loaded bosModel (llamaContext bosModel (paramNCtx 32)) (smallArguments true)

def bosOracle : LoadOracle := { model := some bosModel, contextAllocated := true }

theorem bosSession_opened : openSession bosOracle (smallArguments true) [] = .ok bosSession :=
  openSession_eq (fun unsized => absurd unsized.1 (by decide : paramNCtx 32 ≠ 0)) []

theorem bosVocab_tokenizes : bosVocab.Tokenizes bosModel := by
  intro prompt tokens result tokenized returned
  cases tokenized
  exact (Except.ok.inj returned).symm

/-- A reply of one word, then a second question. -/
def bosCalls : List NativeCall :=
  [.startCompletion (turnOf []).query, .completionLoop (answer 1), .completionLoop (answer 2),
    .stopCompletion, .startCompletion (turnOf []).query, .completionLoop (answer 2)]

theorem bosAtStart_iff_second :
    Visits (Ledger.step bosVocab) BosAtStart (Ledger.init bosSession) bosCalls ↔
      StepsMeet (Ledger.step bosVocab) FirstPrompt (Ledger.init bosSession) bosCalls :=
  bosAtStart_iff bosSession_opened (show bosVocab.AddsBos from rfl) bosVocab_tokenizes bosCalls

/-- The second prompt brings a BOS token to position 3. -/
theorem not_bosAtStart_second :
    openSession bosOracle (smallArguments true) [] = .ok bosSession ∧ bosVocab.AddsBos ∧
      bosVocab.Tokenizes bosSession.model ∧
      (Machine.runSteps (Ledger.step bosVocab) (Ledger.init bosSession) bosCalls).map
        Ledger.decoded = some [⟨3, .bos⟩, ⟨0, .text⟩, ⟨1, .sampled⟩, ⟨3, .bos⟩, ⟨0, .text⟩] ∧
      ¬ Visits (Ledger.step bosVocab) BosAtStart (Ledger.init bosSession) bosCalls := by
  have run : (Machine.runSteps (Ledger.step bosVocab) (Ledger.init bosSession) bosCalls).map
      Ledger.decoded = some [⟨3, .bos⟩, ⟨0, .text⟩, ⟨1, .sampled⟩, ⟨3, .bos⟩, ⟨0, .text⟩] := by
    decide +kernel
  refine ⟨bosSession_opened, rfl, bosVocab_tokenizes, run, fun visits => ?_⟩
  obtain ⟨last, reached, decoded⟩ := Option.map_eq_some_iff.mp run
  have first := (visits.finish reached).first 3 ⟨3, .bos⟩ (by rw [decoded]; rfl) rfl
  cases first

end MineGPT.Native
