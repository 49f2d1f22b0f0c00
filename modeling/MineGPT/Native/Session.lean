import MineGPT.Chat.Delta
import MineGPT.Native.Turn

/-!
# Sessions

What `startCompletion` and `stopCompletion` do, first for any template, then in
a session in which the template given to `loadModel` and the model's own one
are of the same supported kind.  There `_prevLen` is never more than the length
of the rendered history, so the prompt of a turn is always a final part of the
full rendering.
-/

set_option autoImplicit false

namespace MineGPT.Native

open MineGPT.Lib.ByteString MineGPT.Chat

def assistantMessage (content : CString) : LlamaChatMessage :=
  { role := roleAssistant, content := content }

namespace LLMInference

/-! ## Any template -/

theorem applyTemplate_frame (s : LLMInference) :
    ∃ buffer, s.applyTemplate.2 = { s with formattedMessages := buffer } := by
  simp only [applyTemplate]
  split <;> exact ⟨_, rfl⟩

/-- What `startCompletion` changes, whether it returns or throws. -/
structure StartFrame (query : CString) (s t : LLMInference) : Prop extends SameSetup s t where
  messages : t.messages = s.messages ++ [userMessage query]
  response : t.response = s.response
  cache : t.cacheResponseTokens = s.cacheResponseTokens
  prevLen : t.prevLen = if s.storeChats then s.prevLen else 0
  ctx : t.ctx = s.ctx

/-- The session when `startCompletion` applies the template. -/
def prepared (query : CString) (s : LLMInference) : LLMInference :=
  addChatMessage query roleUser
    { (if s.storeChats then s
      else { s with prevLen := 0, formattedMessages := List.replicate s.ctx.cparams.nCtx 0 })
      with responseNumTokens := 0 }

/-- What it makes of the rendered text. -/
def takePrompt (newLen : Int) (s : LLMInference) : Except Failure Bytes × LLMInference :=
  if newLen < 0 then
    (.error (.runtimeError
      "llama_chat_apply_template() in LLMInference::startCompletion() failed"), s)
  else (promptRange s.formattedMessages s.prevLen newLen, s)

theorem slicePrompt_eq (query : CString) (s : LLMInference) :
    s.slicePrompt query =
      (s.prepared query).applyTemplate.2.takePrompt (s.prepared query).applyTemplate.1 := rfl

theorem prepared_eq (query : CString) (s : LLMInference) :
    s.prepared query =
      { s with
        prevLen := if s.storeChats then s.prevLen else 0
        formattedMessages := if s.storeChats then s.formattedMessages
          else List.replicate s.ctx.cparams.nCtx 0
        responseNumTokens := 0
        messages := s.messages ++ [userMessage query] } := by
  cases stored : s.storeChats <;> simp [prepared, addChatMessage, userMessage, stored]

theorem prepared_frame (query : CString) (s : LLMInference) :
    StartFrame query s (s.prepared query) := by
  rw [prepared_eq]
  exact ⟨⟨rfl, rfl, rfl, rfl⟩, rfl, rfl, rfl, rfl, rfl⟩

theorem takePrompt_state (newLen : Int) (s : LLMInference) : (s.takePrompt newLen).2 = s := by
  simp only [takePrompt]
  split <;> rfl

/-- The prompt is taken without a look at the batch. -/
structure SliceFrame (query : CString) (s t : LLMInference) : Prop extends
    StartFrame query s t where
  batch : t.batch = s.batch
  promptTokens : t.promptTokens = s.promptTokens
  currToken : t.currToken = s.currToken

theorem slicePrompt_frame (query : CString) (s : LLMInference) :
    SliceFrame query s (s.slicePrompt query).2 := by
  have frame := prepared_frame query s
  obtain ⟨buffer, applied⟩ := applyTemplate_frame (s.prepared query)
  rw [slicePrompt_eq, takePrompt_state, applied]
  refine ⟨⟨⟨frame.model, frame.cparams, frame.chatTemplate, frame.storeChats⟩,
    frame.messages, frame.response, frame.cache, frame.prevLen, frame.ctx⟩, ?_, ?_, ?_⟩
  all_goals
    rw [prepared_eq]

theorem startCompletion_cases (query : CString) (s : LLMInference) :
    (∃ failure, s.startCompletion query = (.error failure, (s.slicePrompt query).2) ∧
      ((s.slicePrompt query).1 = .error failure ∨
        ∃ prompt, (s.slicePrompt query).1 = .ok prompt ∧
          s.model.commonTokenize prompt = .error failure)) ∨
    ∃ prompt tokens, (s.slicePrompt query).1 = .ok prompt ∧
      s.model.commonTokenize prompt = .ok tokens ∧
      s.startCompletion query = (.ok prompt, { (s.slicePrompt query).2 with
        promptTokens := tokens
        batch := { token := .promptTokens, nTokens := tokens.length } }) := by
  have model := (slicePrompt_frame query s).model
  simp only [startCompletion]
  cases sliced : s.slicePrompt query with
  | mk result t =>
      rw [sliced] at model
      cases result with
      | error failure => exact Or.inl ⟨failure, rfl, Or.inl rfl⟩
      | ok prompt =>
          have model : t.model = s.model := model
          cases tokenized : s.model.commonTokenize prompt with
          | error failure =>
              refine Or.inl ⟨failure, ?_, Or.inr ⟨prompt, rfl, tokenized⟩⟩
              simp only [model, tokenized]
          | ok tokens =>
              refine Or.inr ⟨prompt, tokens, rfl, tokenized, ?_⟩
              simp only [model, tokenized]

theorem startCompletion_frame (query : CString) (s : LLMInference) :
    StartFrame query s (s.startCompletion query).2 := by
  have frame := slicePrompt_frame query s
  rcases startCompletion_cases query s with
    ⟨failure, call, _⟩ | ⟨prompt, tokens, _, _, call⟩
  · rw [call]
    exact frame.toStartFrame
  · rw [call]
    exact ⟨⟨frame.model, frame.cparams, frame.chatTemplate, frame.storeChats⟩, frame.messages,
      frame.response, frame.cache, frame.prevLen, frame.ctx⟩

theorem startCompletion_outcome (query : CString) (s : LLMInference) :
    (∃ failure t, s.startCompletion query = (.error failure, t) ∧ t.batch = s.batch ∧
      t.promptTokens = s.promptTokens ∧ t.currToken = s.currToken) ∨
    ∃ prompt t, s.startCompletion query = (.ok prompt, t) ∧
      (s.slicePrompt query).1 = .ok prompt ∧
      s.model.commonTokenize prompt = .ok t.promptTokens ∧
      t.batch = { token := .promptTokens, nTokens := t.promptTokens.length } := by
  have frame := slicePrompt_frame query s
  rcases startCompletion_cases query s with
    ⟨failure, call, _⟩ | ⟨prompt, tokens, sliced, tokenized, call⟩
  · exact Or.inl ⟨failure, _, call, frame.batch, frame.promptTokens, frame.currToken⟩
  · exact Or.inr ⟨prompt, _, call, sliced, tokenized, rfl⟩

theorem slicePrompt_of_returned {query : CString} {s : LLMInference} {prompt : Bytes}
    (returned : (s.startCompletion query).1 = .ok prompt) :
    (s.slicePrompt query).1 = .ok prompt := by
  rcases startCompletion_cases query s with
    ⟨failure, call, _⟩ | ⟨other, tokens, sliced, _, call⟩
  · rw [call] at returned
    cases returned
  · rw [call] at returned
    rw [sliced, Except.ok.inj returned]

/-- What `stopCompletion` changes, whether it returns or throws. -/
structure StopFrame (s t : LLMInference) : Prop extends SameSetup s t where
  messages : t.messages = s.messages ++
    (if s.storeChats then [assistantMessage (CString.ofBytes s.response)] else [])
  response : t.response = []
  cache : t.cacheResponseTokens = s.cacheResponseTokens
  prevLen : t.prevLen = (llamaChatApplyTemplate s.model.chatTemplate t.messages false []).1
  ctx : t.ctx = s.ctx
  batch : t.batch = s.batch
  batchTokens : t.batchTokens = s.batchTokens

theorem stopCompletion_frame (s : LLMInference) : StopFrame s s.stopCompletion.2 := by
  cases stored : s.storeChats with
  | true =>
      simp only [stopCompletion, stored, if_true]
      split <;> exact ⟨⟨rfl, rfl, rfl, by simp [addChatMessage, stored]⟩,
        by simp [addChatMessage, assistantMessage, stored], rfl, rfl, rfl, rfl, rfl, rfl⟩
  | false =>
      simp only [stopCompletion, stored, Bool.false_eq_true, if_false]
      split <;> exact ⟨⟨rfl, rfl, rfl, by simp [stored]⟩,
        by simp [stored], rfl, rfl, rfl, rfl, rfl, rfl⟩

theorem stopCompletion_result (s : LLMInference) :
    s.stopCompletion.1 =
      if s.stopCompletion.2.prevLen < 0 then
        .error (.runtimeError
          "llama_chat_apply_template() in LLMInference::stopCompletion() failed")
      else .ok () := by
  cases stored : s.storeChats <;>
    simp only [stopCompletion, stored, if_true, Bool.false_eq_true, if_false] <;>
    split <;> simp [*]

/-! ## One supported template -/

theorem llamaChatApplyTemplate_supported {kind : LlmChatTemplate} (supported : kind ≠ .unknown)
    {tmpl : Option CString} (detected : llmChatDetectTemplate (currTmpl tmpl) = kind)
    (chat : List LlamaChatMessage) (addAss : Bool) (buf : Bytes) :
    llamaChatApplyTemplate tmpl chat addAss buf =
      (((render kind chat addAss).length : Int),
        if buf.length > 0 then strncpy buf.length (render kind chat addAss) else buf) := by
  simp only [llamaChatApplyTemplate, detected, llmChatApplyTemplate_eq_render supported]

/-- Whatever the buffer held and however long it was, the full rendering ends up
at its front. -/
theorem applyTemplate_supported {kind : LlmChatTemplate} (supported : kind ≠ .unknown)
    {s : LLMInference} (detected : llmChatDetectTemplate s.chatTemplate.bytes = kind) :
    ∃ buffer, s.applyTemplate =
        (((render kind s.messages true).length : Int), { s with formattedMessages := buffer }) ∧
      (render kind s.messages true).length ≤ buffer.length ∧
      buffer.take (render kind s.messages true).length = render kind s.messages true := by
  have noNul := zero_notMem_render kind s.messages true
  have applied := llamaChatApplyTemplate_supported supported
    (show llmChatDetectTemplate (currTmpl (some s.chatTemplate)) = kind from detected)
    s.messages true
  generalize full_eq : render kind s.messages true = full at noNul applied ⊢
  have copied : ∀ buf : Bytes, full.length ≤ buf.length →
      full.length ≤ (if buf.length > 0 then strncpy buf.length full else buf).length ∧
      (if buf.length > 0 then strncpy buf.length full else buf).take full.length = full := by
    intro buf fits
    split
    · rw [strncpy_length]
      exact ⟨fits, take_strncpy noNul fits⟩
    · have empty : full = [] := List.length_eq_zero_iff.mp (by omega)
      simp [empty]
  have measured : ∀ buf : Bytes,
      (if buf.length > 0 then strncpy buf.length full else buf).length = buf.length := by
    intro buf
    split
    · exact strncpy_length _ _
    · rfl
  simp only [applyTemplate, applied]
  generalize first_eq : (if s.formattedMessages.length > 0
    then strncpy s.formattedMessages.length full else s.formattedMessages) = first
  have firstLength : first.length = s.formattedMessages.length := first_eq ▸ measured _
  split
  · rename_i tooSmall
    refine ⟨_, rfl, copied _ ?_⟩
    simp only [List.length_append, List.length_replicate]
    omega
  · rename_i fits
    refine ⟨first, rfl, ?_⟩
    rw [← first_eq]
    exact copied _ (by omega)

def promptOffset (s : LLMInference) : Int := if s.storeChats then s.prevLen else 0

theorem slicePrompt_detected {kind : LlmChatTemplate} (supported : kind ≠ .unknown)
    {s : LLMInference} (detected : llmChatDetectTemplate s.chatTemplate.bytes = kind)
    (query : CString) :
    (s.slicePrompt query).1 =
      if 0 ≤ s.promptOffset ∧
          s.promptOffset ≤ (render kind (s.messages ++ [userMessage query]) true).length then
        .ok ((render kind (s.messages ++ [userMessage query]) true).drop s.promptOffset.toNat)
      else .error .badRange := by
  have prepared := prepared_frame query s
  have offset : (s.prepared query).prevLen = s.promptOffset := prepared.prevLen
  obtain ⟨buffer, applied, long, front⟩ :=
    applyTemplate_supported supported (s := s.prepared query)
      (by rw [prepared.chatTemplate]; exact detected)
  rw [prepared.messages] at applied long front
  generalize render kind (s.messages ++ [userMessage query]) true = full at applied long front ⊢
  have notNegative : ¬ (full.length : Int) < 0 := by omega
  have range : promptRange buffer s.promptOffset full.length =
      if 0 ≤ s.promptOffset ∧ s.promptOffset ≤ full.length then
        .ok (full.drop s.promptOffset.toNat) else .error .badRange := by
    have fits : (full.length : Int) ≤ buffer.length := by omega
    simp only [promptRange, fits, and_true, Int.toNat_natCast, front]
  rw [slicePrompt_eq, applied]
  simp only [takePrompt, notNegative, if_false, offset, range]

theorem applyTemplate_unknown {s : LLMInference}
    (unknown : llmChatDetectTemplate s.chatTemplate.bytes = .unknown) :
    s.applyTemplate.1 = -1 := by
  have refused : ∀ buf, llamaChatApplyTemplate (some s.chatTemplate) s.messages true buf =
      (-1, buf) := by
    intro buf
    simp [llamaChatApplyTemplate, currTmpl, unknown, llmChatApplyTemplate]
  have small : ¬ (s.formattedMessages.length : Int) < -1 := by omega
  simp only [applyTemplate, refused, small, if_false]

theorem slicePrompt_unknown {s : LLMInference}
    (unknown : llmChatDetectTemplate s.chatTemplate.bytes = .unknown) (query : CString) :
    (s.slicePrompt query).1 = .error (.runtimeError
      "llama_chat_apply_template() in LLMInference::startCompletion() failed") := by
  have refused := applyTemplate_unknown (s := s.prepared query)
    (by rw [(prepared_frame query s).chatTemplate]; exact unknown)
  rw [slicePrompt_eq, refused]
  rfl

theorem startCompletion_unknown {s : LLMInference}
    (unknown : llmChatDetectTemplate s.chatTemplate.bytes = .unknown) (query : CString) :
    (s.startCompletion query).1 = .error (.runtimeError
      "llama_chat_apply_template() in LLMInference::startCompletion() failed") := by
  have refused := slicePrompt_unknown unknown query
  rcases startCompletion_cases query s with
    ⟨failure, call, same | ⟨prompt, sliced, _⟩⟩ | ⟨prompt, tokens, sliced, _⟩
  · rw [call, ← same, refused]
  · rw [refused] at sliced
    cases sliced
  · rw [refused] at sliced
    cases sliced

structure OneTemplate (kind : LlmChatTemplate) (s : LLMInference) : Prop where
  supported : kind ≠ .unknown
  chatTemplate : llmChatDetectTemplate s.chatTemplate.bytes = kind
  modelTemplate : llmChatDetectTemplate (currTmpl s.model.chatTemplate) = kind
  nonneg : 0 ≤ s.prevLen
  inside : s.prevLen ≤ (render kind s.messages false).length

theorem render_length_mono (kind : LlmChatTemplate) {h chat : List LlamaChatMessage}
    (earlier : h <+: chat) :
    (render kind h false).length ≤ (render kind chat false).length := by
  obtain ⟨d, rfl⟩ := earlier
  exact (appendOnly_render kind h d).length_le

theorem OneTemplate.grow {kind : LlmChatTemplate} {s t : LLMInference}
    (session : OneTemplate kind s) (setup : SameSetup s t)
    (offset : t.prevLen = s.prevLen ∨ t.prevLen = 0) (more : s.messages <+: t.messages) :
    OneTemplate kind t where
  supported := session.supported
  chatTemplate := by rw [setup.chatTemplate]; exact session.chatTemplate
  modelTemplate := by rw [setup.model]; exact session.modelTemplate
  nonneg := by
    have := session.nonneg
    omega
  inside := by
    have := session.inside
    have := render_length_mono kind more
    omega

theorem StartFrame.oneTemplate {kind : LlmChatTemplate} {query : CString} {s t : LLMInference}
    (frame : StartFrame query s t) (session : OneTemplate kind s) : OneTemplate kind t := by
  refine session.grow frame.toSameSetup ?_ (frame.messages ▸ List.prefix_append _ _)
  have := frame.prevLen
  cases stored : s.storeChats <;> simp [this, stored]

theorem LoopLaw.more {s : LLMInference} {r : LoopResult} (law : LoopLaw s r) :
    s.messages <+: r.state.messages := by
  by_cases eog : r.exit = .endOfGeneration
  · rw [(law.ended eog).2.2.1]
    exact List.prefix_append _ _
  · rw [(law.notEnded eog).2]

theorem LoopLaw.oneTemplate {kind : LlmChatTemplate} {s : LLMInference} {r : LoopResult}
    (law : LoopLaw s r) (session : OneTemplate kind s) : OneTemplate kind r.state :=
  session.grow law.toSameSetup (Or.inl law.prevLen) law.more

theorem slicePrompt_supported {kind : LlmChatTemplate} (query : CString) {s : LLMInference}
    (session : OneTemplate kind s) :
    let t := (s.slicePrompt query).2
    (s.slicePrompt query).1 = .ok ((render kind t.messages true).drop t.prevLen.toNat) ∧
      (render kind t.messages true).length ≤ t.formattedMessages.length := by
  have prepared := prepared_frame query s
  have reached := prepared.oneTemplate session
  obtain ⟨buffer, applied, long, front⟩ :=
    applyTemplate_supported session.supported reached.chatTemplate
  have notNegative : ¬ ((render kind (s.prepared query).messages true).length : Int) < 0 := by
    omega
  have range : promptRange buffer (s.prepared query).prevLen
      (render kind (s.prepared query).messages true).length =
      .ok ((render kind (s.prepared query).messages true).drop
        (s.prepared query).prevLen.toNat) := by
    have longer := (render_false_prefix_true kind (s.prepared query).messages).length_le
    have := reached.nonneg
    have := reached.inside
    rw [promptRange, if_pos (by omega), Int.toNat_natCast, front]
  simp only [slicePrompt_eq, applied, takePrompt, notNegative, if_false, range]
  exact ⟨trivial, long⟩

theorem stopCompletion_supported {kind : LlmChatTemplate} {s : LLMInference}
    (session : OneTemplate kind s) :
    s.stopCompletion.1 = .ok () ∧ OneTemplate kind s.stopCompletion.2 ∧
    s.stopCompletion.2.prevLen = (render kind s.stopCompletion.2.messages false).length := by
  have frame := stopCompletion_frame s
  have measured := frame.prevLen
  rw [llamaChatApplyTemplate_supported session.supported session.modelTemplate] at measured
  simp only at measured
  refine ⟨?_, ⟨session.supported, ?_, ?_, by omega, by omega⟩, measured⟩
  · have applied := fun chat => llamaChatApplyTemplate_supported session.supported
      session.modelTemplate chat false []
    have notNegative : ∀ chat, ¬ ((render kind chat false).length : Int) < 0 :=
      fun _ => by omega
    simp only [stopCompletion]
    cases s.storeChats <;> simp [addChatMessage, applied, notNegative]
  · rw [frame.chatTemplate]
    exact session.chatTemplate
  · rw [frame.model]
    exact session.modelTemplate

end LLMInference

end MineGPT.Native
