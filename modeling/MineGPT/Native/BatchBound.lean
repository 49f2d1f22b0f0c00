import MineGPT.Native.Admission

/-!
# The bound on a batch

`completionLoop` checks a batch against `n_ctx`, `llama_decode` asserts that it
is no longer than `n_batch`.  The first is rounded up to a multiple of 32, the
second is the size as requested, but at most 2048 and at least 64.  So the check
implies the assertion exactly for the context sizes whose rounded value is at
most `n_batch`.
-/

set_option autoImplicit false

namespace MineGPT.Native

open MineGPT.Lib.ByteString MineGPT.Chat MineGPT.Kv LLMInference

/-- Where the context check passes, the batch is within `n_batch`. -/
def BatchBounded (s : LLMInference) : Prop :=
  s.contextCheck → s.batch.nTokens ≤ s.ctx.cparams.nBatch

/-- A tokenizer with one token for each byte, and ChatML as its template. -/
def byteModel (causalAttn : Bool) (nCtxTrain : Nat) : LlamaModel where
  nTokens := 257
  commonTokenize := fun text => .ok (text.map fun b => (b.toNat : Int))
  commonTokenToPiece := fun token => [UInt8.ofNat token.toNat]
  isEog := fun token => token = 256
  chatTemplate := some chatmlName
  nCtxTrain := nCtxTrain
  causalAttn := causalAttn
  recurrent := false

def byteArguments (contextSize : Int) : LoadArguments where
  storeChats := true
  contextSize := contextSize
  chatTemplate := chatmlName

def lettersQuery (length : Nat) : CString :=
  ⟨List.replicate length 97, fun member => absurd (List.eq_of_mem_replicate member) (by decide)⟩

theorem length_render_letters (length : Nat) :
    (render .chatml [userMessage (lettersQuery length)] true).length = length + 50 := by
  have markers : (lit "<|im_start|>").length + (lit "user").length + (lit "\n").length +
      (lit "<|im_end|>\n").length + (lit "<|im_start|>assistant\n").length = 50 := by decide
  simp only [render, llmChatApplyTemplate, Option.getD_some, if_true, List.flatMap_cons,
    List.flatMap_nil, List.append_nil, chatmlBody, userMessage, roleUser, lettersQuery,
    List.length_append, List.length_replicate]
  omega

def byteSession (causalAttn : Bool) (nCtxTrain : Nat) (contextSize : Int) : LLMInference :=
  loaded (byteModel causalAttn nCtxTrain)
    (llamaContext (byteModel causalAttn nCtxTrain) (paramNCtx contextSize))
    (byteArguments contextSize)

theorem byteSession_oneTemplate (causalAttn : Bool) (nCtxTrain : Nat) (contextSize : Int) :
    OneTemplate .chatml (byteSession causalAttn nCtxTrain contextSize) where
  supported := by decide
  chatTemplate := (by decide : llmChatDetectTemplate (lit "chatml") = .chatml)
  modelTemplate := (by decide : llmChatDetectTemplate (lit "chatml") = .chatml)
  nonneg := Int.le_refl 0
  inside := Int.natCast_nonneg _

theorem startCompletion_byteSession (causalAttn : Bool) (nCtxTrain : Nat) (contextSize : Int)
    (length : Nat) :
    let s := byteSession causalAttn nCtxTrain contextSize
    ((s.startCompletion (lettersQuery length)).2).batch.nTokens = length + 50 ∧
      ((s.startCompletion (lettersQuery length)).2).ctx = s.ctx := by
  intro s
  have frame := startCompletion_frame (lettersQuery length) s
  have sliced := slicePrompt_frame (lettersQuery length) s
  have offset : (s.slicePrompt (lettersQuery length)).2.prevLen = 0 := sliced.prevLen
  have messages : (s.slicePrompt (lettersQuery length)).2.messages =
      [userMessage (lettersQuery length)] := sliced.messages
  obtain ⟨prompt, _⟩ := slicePrompt_supported (lettersQuery length)
    (byteSession_oneTemplate causalAttn nCtxTrain contextSize)
  rw [messages, offset, Int.toNat_zero, List.drop_zero] at prompt
  refine ⟨?_, frame.ctx⟩
  rcases startCompletion_cases (lettersQuery length) s with
    ⟨failure, _, same | ⟨text, _, tokenized⟩⟩ | ⟨text, tokens, same, tokenized, call⟩
  · exact absurd (prompt.symm.trans same) (by simp)
  · simp [s, byteSession, loaded, byteModel] at tokenized
  · obtain rfl := Except.ok.inj (same.symm.trans prompt)
    simp only [s, byteSession, loaded, byteModel, Except.ok.injEq] at tokenized
    rw [call, ← tokenized, List.length_map]
    exact length_render_letters length

theorem byteSession_opened {causalAttn : Bool} {nCtxTrain : Nat} {contextSize : Int}
    (sized : ¬ (paramNCtx contextSize = 0 ∧ nCtxTrain = 0)) :
    openSession { model := some (byteModel causalAttn nCtxTrain), contextAllocated := true }
        (byteArguments contextSize) [] = .ok (byteSession causalAttn nCtxTrain contextSize) :=
  openSession_eq (show ¬ (paramNCtx (byteArguments contextSize).contextSize = 0 ∧
    (byteModel causalAttn nCtxTrain).nCtxTrain = 0) from sized) []

theorem le_contextNBatch (causalAttn : Bool) (nCtxTrain nCtx : Nat) :
    64 ≤ contextNBatch causalAttn nCtxTrain nCtx := Nat.le_max_left _ _

theorem byteSession_overfull {causalAttn : Bool} {nCtxTrain : Nat} {contextSize : Int}
    (exceeds : (contextParams causalAttn nCtxTrain (paramNCtx contextSize)).nBatch <
      (contextParams causalAttn nCtxTrain (paramNCtx contextSize)).nCtx) :
    ∃ query, ¬ BatchBounded
      ((byteSession causalAttn nCtxTrain contextSize).startCompletion query).2 := by
  have minimum : 64 ≤ (contextParams causalAttn nCtxTrain (paramNCtx contextSize)).nBatch :=
    le_contextNBatch _ _ _
  generalize params_eq :
    contextParams causalAttn nCtxTrain (paramNCtx contextSize) = params at exceeds minimum
  have sizes : (byteSession causalAttn nCtxTrain contextSize).ctx.cparams = params := params_eq
  have unused : (byteSession causalAttn nCtxTrain contextSize).ctx.kv.used = 0 := rfl
  obtain ⟨length, ctx⟩ := startCompletion_byteSession causalAttn nCtxTrain contextSize
    (params.nBatch + 1 - 50)
  refine ⟨lettersQuery (params.nBatch + 1 - 50), ?_⟩
  intro within
  rw [BatchBounded, contextCheck, length, ctx, unused, sizes] at within
  omega

/-- For a context size and what the model adds to it: the context check implies
the bound on the batch, whatever the tokenizer, the session and the calls,
exactly when the rounded size is at most `n_batch`. -/
theorem batchBounded_iff (causalAttn : Bool) (nCtxTrain : Nat) (contextSize : Int) :
    (∀ (oracle : LoadOracle) (arguments : LoadArguments) (initial : List LlamaChatMessage)
        (s : LLMInference) (calls : List NativeCall),
      openSession oracle arguments initial = .ok s → arguments.contextSize = contextSize →
      s.model.causalAttn = causalAttn → s.model.nCtxTrain = nCtxTrain →
      BatchBounded (calls.foldl (fun s call => call.run s) s)) ↔
    (contextParams causalAttn nCtxTrain (paramNCtx contextSize)).nCtx ≤
      (contextParams causalAttn nCtxTrain (paramNCtx contextSize)).nBatch := by
  constructor
  · intro bounded
    by_contra exceeds
    rw [Nat.not_le] at exceeds
    have sized : ¬ (paramNCtx contextSize = 0 ∧ nCtxTrain = 0) := by
      rintro ⟨requested, trained⟩
      rw [requested, trained] at exceeds
      exact absurd exceeds (Nat.not_lt_zero _)
    obtain ⟨query, overfull⟩ := byteSession_overfull exceeds
    exact overfull (bounded _ (byteArguments contextSize) [] _ [.startCompletion query]
      (byteSession_opened sized) rfl rfl rfl)
  · intro rounded oracle arguments initial s calls opened size causal trained check
    have sizes : s.ctx.cparams =
        contextParams causalAttn nCtxTrain (paramNCtx contextSize) := by
      rw [(openSession_fresh opened).ctx, llamaContext, causal, trained, size]
    rw [contextCheck, runs_cparams, sizes] at check
    rw [runs_cparams, sizes]
    omega

/-- A context of 100 tokens is rounded up to 128: a prompt of 101 tokens passes
the check and aborts the process. -/
theorem not_batchBounded_100 :
    openSession { model := some (byteModel true 4096), contextAllocated := true }
        (byteArguments 100) [] = .ok (byteSession true 4096 100) ∧
      let reached := NativeCall.run (byteSession true 4096 100)
        (.startCompletion (lettersQuery 51))
      ¬ BatchBounded reached ∧
        (reached.completionLoop (answer 1)).1 = .error .ggmlAssert := by
  refine ⟨byteSession_opened (fun unsized => absurd unsized.1 (by decide)), ?_, ?_⟩
  · rw [BatchBounded, contextCheck]
    decide +kernel
  · decide +kernel

end MineGPT.Native
