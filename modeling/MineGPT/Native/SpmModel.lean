import MineGPT.Native.Jni
import MineGPT.Vocab.SpmRead

/-!
# Models with a SentencePiece vocabulary

A session takes the tokenizer of its model as a parameter.  For a vocabulary of the
type SPM it is the one of the vocabulary modules, and where each byte has a token
that one throws nothing.  Then the templates alone decide whether an exception
leaves a native method.
-/

set_option autoImplicit false

namespace MineGPT.Native

open MineGPT.Lib.ByteString MineGPT.Lib.Machine MineGPT.Lib.MergeQueue MineGPT.Chat
open MineGPT.Vocab LLMInference

/-! ## The tokenizer of the model -/

/-- What the caller of `common_tokenize` sees of an error.  Nothing is promised where the
session reads behind the end of a text or does not come to one. -/
def Reported : TokenizeError → Failure → Prop
  | .outOfRange, failure => failure = .outOfRange
  | .regexError, failure => ∃ what, failure = .runtimeError what
  | .noSpecialId, failure => failure = .ggmlAssert
  | .noSymbol, _ => True
  | .outOfFuel, _ => True

structure LlamaModel.TokenizesBy (model : LlamaModel)
    (tokenize : Bytes → Bool → Bool → Except TokenizeError (List Nat)) : Prop where
  returns : ∀ text tokens, Vocab.commonTokenize tokenize text true true = some tokens →
    model.commonTokenize text = .ok (tokens.map Int.ofNat)
  fails : ∀ text e, tokenize text true true = .error e →
    ∃ failure, model.commonTokenize text = .error failure ∧ Reported e failure

/-- With a token for each byte, nothing is thrown on any text, valid or not. -/
theorem spm_tokenizable {S σ : Type} [LinearOrder S] {vocab : Vocab.LlamaVocab S}
    {special : SpecialCache vocab} {settings : Settings}
    {queue : PriorityQueue (BigramSpm S) σ spmLess} {model : LlamaModel}
    (tokenizes :
      model.TokenizesBy (tokenizeWith (spmSession vocab settings queue) vocab special settings))
    (bytes : ByteTokens vocab) (text : Bytes) : model.Tokenizable text := by
  intro failure failed
  cases result : tokenizeWith (spmSession vocab settings queue) vocab special settings text
      true true with
  | ok tokens =>
      have whole := tokenizes.returns text tokens (by rw [commonTokenize_eq, result]; rfl)
      rw [whole] at failed
      cases failed
  | error e =>
      have assertion : e = .noSpecialId := tokenizeWith_error
        (fun prev fragment => spmSession_ok bytes settings queue prev) special settings result
      obtain ⟨other, same, reported⟩ := tokenizes.fails text e result
      rw [failed] at same
      cases same
      rw [assertion] at reported
      rw [show failure = .ggmlAssert from reported]
      exact id

/-! ## Sessions that throw nothing -/

/-- The templates are of one supported kind and the tokenizer throws nothing. -/
def LLMInference.Throwless (s : LLMInference) : Prop :=
  (∃ kind, OneTemplate kind s) ∧ ∀ text, s.model.Tokenizable text

theorem LLMInference.Throwless.grow {s t : LLMInference} (session : s.Throwless)
    (setup : SameSetup s t) (offset : t.prevLen = s.prevLen ∨ t.prevLen = 0)
    (more : s.messages <+: t.messages) : t.Throwless := by
  obtain ⟨⟨kind, one⟩, tokenizable⟩ := session
  refine ⟨⟨kind, one.grow setup offset more⟩, ?_⟩
  rw [setup.model]
  exact tokenizable

theorem LLMInference.OneTemplate.promptable {kind : LlmChatTemplate} {s : LLMInference}
    (one : OneTemplate kind s) (tokenizable : ∀ text, s.model.Tokenizable text)
    (query : CString) : s.Promptable query := by
  unfold Promptable
  rw [one.chatTemplate]
  refine ⟨one.supported, ?_, tokenizable _⟩
  have inside := one.inside
  have longer := render_length_mono kind (List.prefix_append s.messages [userMessage query])
  have opened := (render_false_prefix_true kind (s.messages ++ [userMessage query])).length_le
  rw [promptOffset]
  split <;> omega

theorem completionLoop_more (oracle : LoopOracle) (s : LLMInference) :
    s.messages <+: (s.completionLoop oracle).2.messages := by
  rcases completionLoop_cases oracle s with
    ⟨_, _, call, threw⟩ | ⟨_, _, _, call, ended⟩ | ⟨_, _, _, _, call, sampled⟩
  · rw [call, threw.messages]
  · rw [call, ended.messages]
    exact List.prefix_append _ _
  · rw [call, sampled.messages]

/-! ## Runs -/

def ThrowlessProcess : Process → Prop
  | .running (some s) => s.Throwless
  | _ => True

/-- The condition on a call: the file it loads has its own template of the kind of the
given one, which is supported, and a tokenizer that throws nothing. -/
def LoadsThrowless : JniCall → Prop
  | .loadModel oracle arguments => ∀ model, oracle.model = some model →
    llmChatDetectTemplate arguments.chatTemplate.bytes ≠ .unknown ∧
      llmChatDetectTemplate (currTmpl model.chatTemplate) =
        llmChatDetectTemplate arguments.chatTemplate.bytes ∧
      ∀ text, model.Tokenizable text
  | _ => True

theorem throwless_loaded {oracle : LoadOracle} {arguments : LoadArguments} {s : LLMInference}
    (loads : LoadsThrowless (.loadModel oracle arguments))
    (returned : Native.loadModel oracle arguments = .ok s) : s.Throwless := by
  obtain ⟨model, file, rfl⟩ := loadModel_model returned
  obtain ⟨supported, own, tokenizable⟩ := loads model file
  exact ⟨⟨_, supported, rfl, own, Int.le_refl 0, Int.natCast_nonneg _⟩, tokenizable⟩

theorem throwless_after {outcome : JniOutcome} {session : Option LLMInference}
    (kept : ThrowlessProcess (.running session)) : ThrowlessProcess (.after outcome session) := by
  cases outcome with
  | returned | pending what => exact kept
  | escaped failure | aborted | hangs => trivial

theorem JniSteps.throwless {session : Option LLMInference} {call : JniCall} {next : Process}
    (taken : JniSteps session call next) (before : ThrowlessProcess (.running session))
    (loads : LoadsThrowless call) : ThrowlessProcess next := by
  cases taken with
  | loaded oracle arguments s returned => exact throwless_loaded loads returned
  | loadThrew oracle arguments failure threw => exact throwless_after before
  | addChatMessage message role s live =>
      subst live
      exact before.grow ⟨rfl, rfl, rfl, rfl⟩ (Or.inl rfl) (List.prefix_append _ _)
  | startCompletion query s live =>
      subst live
      have frame := startCompletion_frame query s
      refine throwless_after (before.grow frame.toSameSetup ?_ ?_)
      · have := frame.prevLen
        cases stored : s.storeChats <;> simp [this, stored]
      · rw [frame.messages]
        exact List.prefix_append _ _
  | completionLoop oracle s live =>
      subst live
      have frame := completionLoop_frame oracle s
      exact throwless_after
        (before.grow frame.toSameSetup (Or.inl frame.prevLen) (completionLoop_more oracle s))
  | stopCompletion s live =>
      subst live
      obtain ⟨⟨kind, one⟩, tokenizable⟩ := before
      refine throwless_after ⟨⟨kind, (stopCompletion_supported one).2.1⟩, ?_⟩
      rw [(stopCompletion_frame s).model]
      exact tokenizable
  | close => trivial

theorem ThrowlessProcess.nothingToThrow {session : Option LLMInference}
    (before : ThrowlessProcess (.running session)) (call : JniCall) :
    NothingToThrow (.running session) call := by
  cases session with
  | none => trivial
  | some s =>
      obtain ⟨⟨kind, one⟩, tokenizable⟩ := before
      cases call with
      | startCompletion query => exact one.promptable tokenizable query
      | stopCompletion =>
          intro unknown
          exact one.supported (one.modelTemplate.symm.trans unknown)
      | loadModel oracle arguments | addChatMessage message role | completionLoop oracle | close =>
          trivial

/-- Where every model that gets loaded has a tokenizer that throws nothing and its own
template of the kind of the given one, no order of the calls lets an exception out. -/
theorem nothingEscapes_of_loads {calls : List JniCall} (loads : ∀ call ∈ calls, LoadsThrowless call) :
    Visits jniStep NothingEscaped (.running none) calls := by
  have visits : Visits jniStep
      (fun p => OffsetsCount p ∧ ThrowlessProcess p ∧ NothingEscaped p) (.running none) calls := by
    refine visits_of_stepsMeet ?_ ⟨trivial, trivial, trivial⟩
      (stepsMeet_of_forall loads)
    rintro p call next ⟨counts, before, _⟩ load taken
    cases p with
    | ended how => simp [jniStep] at taken
    | running session =>
        have step := jniSteps_of_step taken
        exact ⟨step.offsetsCount counts, step.throwless before load,
          (step.keepsInside_iff counts).mpr (before.nothingToThrow call)⟩
  exact visits.mono fun _ each => each.2.2

def wordsModel : LlamaModel :=
  { smallModel [] with
    nTokens := wordsVocab.nTokens
    commonTokenize := fun text =>
      match tokenizeWith (spmSession wordsVocab wordsSettings spmQueue) wordsVocab wordsSpecial
        wordsSettings text true true with
      | .ok tokens => .ok (tokens.map Int.ofNat)
      | .error _ => .error .ggmlAssert }

theorem wordsVocab_byteTokens : ByteTokens wordsVocab := by
  intro b
  obtain ⟨token, known⟩ := Option.ne_none_iff_exists'.mp (wordsVocab_bytes b)
  exact ⟨token, by rw [spmByteToToken, known]⟩

theorem wordsModel_tokenizes : wordsModel.TokenizesBy
    (tokenizeWith (spmSession wordsVocab wordsSettings spmQueue) wordsVocab wordsSpecial
      wordsSettings) where
  returns text tokens whole := by
    rw [commonTokenize_eq] at whole
    simp only [wordsModel]
    split
    · rename_i result
      rw [result] at whole
      cases whole
      rfl
    · rename_i result
      rw [result] at whole
      cases whole
  fails text e result := by
    have assertion : e = .noSpecialId := tokenizeWith_error
      (fun prev fragment => spmSession_ok wordsVocab_byteTokens wordsSettings spmQueue prev)
      wordsSpecial wordsSettings result
    subst assertion
    exact ⟨.ggmlAssert, by simp only [wordsModel, result], rfl⟩

example (query next : CString) : Visits jniStep NothingEscaped (.running none)
    [.loadModel { model := some wordsModel, contextAllocated := true } (smallArguments true),
      .startCompletion query, .stopCompletion, .startCompletion next] := by
  apply nothingEscapes_of_loads
  intro call member
  simp only [List.mem_cons, List.not_mem_nil, or_false] at member
  rcases member with rfl | rfl | rfl | rfl
  · rintro model ⟨⟩
    refine ⟨by decide, by decide, ?_⟩
    exact spm_tokenizable wordsModel_tokenizes wordsVocab_byteTokens
  all_goals trivial

end MineGPT.Native
