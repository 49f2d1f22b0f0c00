import MineGPT.Native.Run

/-!
# The template of the offset

`stopCompletion` measures the history with the model's own template, and
`startCompletion` takes the offset as one into the rendering with the template
given to `loadModel`.  In every run the two agree only if the templates are of
one kind: any two kinds differ on some history.
-/

set_option autoImplicit false

namespace MineGPT.Native

open MineGPT.Lib.ByteString MineGPT.Chat MineGPT.Kv LLMInference

/-- The offset is the length of the history in the template that
`startCompletion` uses, and whatever is asked next it lies in the text rendered
then. -/
structure OffsetAgrees (s : LLMInference) : Prop where
  offset : s.prevLen = (llamaChatApplyTemplate (some s.chatTemplate) s.messages false []).1
  nonneg : ∀ query, 0 ≤ (s.prepared query).prevLen
  le_newLen : ∀ query, (s.prepared query).prevLen ≤ (s.prepared query).applyTemplate.1

/-- In every run of completed turns under this pair of templates the offset agrees
after each `stopCompletion`. -/
def OffsetsAgree (chatTemplate : CString) (own : Option CString) : Prop :=
  ∀ (oracle : LoadOracle) (arguments : LoadArguments) (initial : List LlamaChatMessage)
    (s : LLMInference) (inputs : List TurnInput),
    openSession oracle arguments initial = .ok s → arguments.chatTemplate = chatTemplate →
    s.model.chatTemplate = own → (∀ t ∈ runTurns inputs s, t.ending = .completed) →
    ∀ t ∈ runTurns inputs s, OffsetAgrees t.after

/-! ## One kind -/

theorem Turn.Supported.offsetAgrees {kind : LlmChatTemplate} {t : Turn} (turn : t.Supported kind)
    (completed : t.ending = .completed) : OffsetAgrees t.after where
  offset := by
    have session := turn.afterSession
    rw [llamaChatApplyTemplate_supported session.supported
      (show llmChatDetectTemplate (currTmpl (some t.after.chatTemplate)) = kind from
        session.chatTemplate)]
    exact turn.offset completed
  nonneg := fun query => ((prepared_frame query _).oneTemplate turn.afterSession).nonneg
  le_newLen := by
    intro query
    have session := (prepared_frame query _).oneTemplate turn.afterSession
    obtain ⟨buffer, applied, _⟩ := applyTemplate_supported session.supported session.chatTemplate
    have inside := session.inside
    have longer := (render_false_prefix_true kind (t.after.prepared query).messages).length_le
    rw [applied]
    show _ ≤ ((render kind (t.after.prepared query).messages true).length : Int)
    omega

theorem getResponse_completed {query : CString} {oracles : List LoopOracle} {s : LLMInference}
    (completed : (getResponse query oracles s).ending = .completed) :
    0 ≤ (getResponse query oracles s).after.prevLen := by
  unfold getResponse at completed ⊢
  cases started : s.startCompletion query with
  | mk outcome after =>
      cases outcome with
      | error failure => simp [started] at completed
      | ok prompt =>
          simp only [started] at completed ⊢
          split at completed
          · rename_i reached
            rw [if_pos reached]
            have result := stopCompletion_result (after.responseLoop oracles).state
            cases stopped : (after.responseLoop oracles).state.stopCompletion with
            | mk outcome last =>
                cases outcome with
                | error failure => simp [stopped] at completed
                | ok done =>
                    simp only [stopped] at result ⊢
                    by_contra negative
                    rw [if_pos (Int.not_le.mp negative)] at result
                    cases result
          · simp at completed

theorem not_completed_of_unknown {query : CString} {oracles : List LoopOracle} {s : LLMInference}
    (unknown : llmChatDetectTemplate (currTmpl s.model.chatTemplate) = .unknown) :
    (getResponse query oracles s).ending ≠ .completed := by
  intro completed
  obtain ⟨law, before, _⟩ := getResponse_law query oracles s
  have nonneg := getResponse_completed completed
  have reached := law.completed completed
  have stopped := law.stopped reached
  have model : (getResponse query oracles s).loop.state.model = s.model := by
    rw [law.loop.model, law.start.model, before]
  have measured := stopped.prevLen
  simp only [llamaChatApplyTemplate, model, unknown, llmChatApplyTemplate] at measured
  omega

/-! ## Two kinds

Two messages on which, with a question and two empty answers behind them, no two
templates write equally long texts. -/

def probe : List LlamaChatMessage :=
  [⟨roleAssistant, ⟨lit "   s ", by decide⟩⟩, ⟨⟨lit "system", by decide⟩, ⟨lit " u ", by decide⟩⟩]

def probed : List LlamaChatMessage :=
  probe ++ [userMessage (turnOf []).query, assistantMessage (CString.ofBytes []),
    assistantMessage (CString.ofBytes [])]

theorem mem_kinds {kind : LlmChatTemplate} (supported : kind ≠ .unknown) :
    kind ∈ llmChatTemplates.map Prod.snd := by
  cases kind with
  | unknown => exact absurd rfl supported
  | _ => decide

theorem kind_of_length {first second : LlmChatTemplate} (supported : first ≠ .unknown)
    (supported' : second ≠ .unknown)
    (length : (render first probed false).length = (render second probed false).length) :
    first = second := by
  have distinct : ((llmChatTemplates.map Prod.snd).map fun kind =>
      (render kind probed false).length).Nodup := by decide +kernel
  exact List.inj_on_of_nodup_map distinct (mem_kinds supported) (mem_kinds supported') length

def probeModel (own : Option CString) : LlamaModel := { smallModel [] with chatTemplate := own }

def probeArguments (chatTemplate : CString) : LoadArguments :=
  { smallArguments true with chatTemplate := chatTemplate }

def probeSession (own : Option CString) (chatTemplate : CString) : LLMInference :=
  { loaded (probeModel own) (llamaContext (probeModel own) (paramNCtx 32))
      (probeArguments chatTemplate) with messages := probe }

theorem probeSession_opened (own : Option CString) (chatTemplate : CString) :
    openSession { model := some (probeModel own), contextAllocated := true }
      (probeArguments chatTemplate) probe = .ok (probeSession own chatTemplate) :=
  openSession_eq (fun unsized => absurd unsized.1 (by decide : paramNCtx 32 ≠ 0)) probe

theorem completionLoop_probe {own : Option CString} {chatTemplate : CString} {s : LLMInference}
    (frame : StartFrame (turnOf []).query (probeSession own chatTemplate) s)
    (tokens : s.promptTokens = [0]) (batch : s.batch = { token := .promptTokens, nTokens := 1 }) :
    ∃ after, s.completionLoop (answer 2) = (.ok (lit "[EOG]"), after) ∧ Ended s after := by
  have ctx : s.ctx = (smallSession [] true).ctx := frame.ctx
  have model : s.model.toDecodeModel = (smallModel []).toDecodeModel := by rw [frame.model]; rfl
  have decodes : (s.llamaDecode (answer 2).toDecodeOracle).outcome = .returned 0 := by
    have pending : s.batchTokens = [0] := by simp [batchTokens, batch, tokens]
    rw [llamaDecode, model, ctx, pending]
    decide +kernel
  have room : ¬ s.ctx.cparams.nCtx < s.ctx.kv.getUsedCells + s.batch.nTokens := by
    rw [ctx, batch]
    decide +kernel
  have passed : (s.decodeBatch (answer 2).toDecodeOracle).1 = .ok () := by
    simp only [decodeBatch, room, if_false, decodes]
    rfl
  have eog : s.model.isEog (answer 2).sampledToken = true := by rw [frame.model]; rfl
  rcases completionLoop_cases (answer 2) s with
    ⟨failure, after, call, _⟩ | ⟨_, _, after, call, ended⟩ | ⟨notEog, _⟩
  · rw [completionLoop] at call
    cases decoded : s.decodeBatch (answer 2).toDecodeOracle with
    | mk result next =>
        rw [decoded] at passed call
        subst passed
        simp at call
  · exact ⟨after, call, ended⟩
  · rw [eog] at notEog
    cases notEog

theorem probe_turn {own : Option CString} {chatTemplate : CString}
    (accepted : llmChatDetectTemplate chatTemplate.bytes ≠ .unknown)
    (known : llmChatDetectTemplate (currTmpl own) ≠ .unknown) :
    (getResponse (turnOf []).query [answer 2] (probeSession own chatTemplate)).ending =
        .completed ∧
      (getResponse (turnOf []).query [answer 2] (probeSession own chatTemplate)).after.messages =
        probed ∧
      (getResponse (turnOf []).query [answer 2] (probeSession own chatTemplate)).after.prevLen =
        (render (llmChatDetectTemplate (currTmpl own)) probed false).length := by
  have frame := startCompletion_frame (turnOf []).query (probeSession own chatTemplate)
  have sliced := slicePrompt_detected accepted (s := probeSession own chatTemplate) rfl
    (turnOf []).query
  rw [if_pos ⟨Int.le_refl 0, Int.natCast_nonneg _⟩] at sliced
  rcases startCompletion_cases (turnOf []).query (probeSession own chatTemplate) with
    ⟨failure, _, same | ⟨prompt, _, refused⟩⟩ | ⟨prompt, tokens, _, tokenized, start⟩
  · rw [sliced] at same
    cases same
  · cases refused
  · obtain rfl : [0] = tokens := Except.ok.inj tokenized
    rw [start] at frame
    generalize started_eq : ({ ((probeSession own chatTemplate).slicePrompt (turnOf []).query).2 with
      promptTokens := [0], batch := { token := .promptTokens, nTokens := [0].length } } :
      LLMInference) = started at start frame
    have one : started.promptTokens = [0] := started_eq ▸ rfl
    have batch : started.batch = { token := .promptTokens, nTokens := 1 } := started_eq ▸ rfl
    obtain ⟨replied, call, ended⟩ := completionLoop_probe frame one batch
    have stop := stopCompletion_frame replied
    have result := stopCompletion_result replied
    have model : replied.model.chatTemplate = own := by rw [ended.model, frame.model]; rfl
    have stores : replied.storeChats = true := by rw [ended.storeChats, frame.storeChats]; rfl
    have messages : replied.stopCompletion.2.messages = probed := by
      rw [stop.messages, ended.messages, frame.messages, frame.response, ended.response, stores]
      rfl
    have offset := stop.prevLen
    rw [messages, model, llamaChatApplyTemplate_supported known rfl] at offset
    have done : replied.stopCompletion.1 = .ok () := by
      rw [result, offset]
      exact if_neg (Int.not_lt.mpr (Int.natCast_nonneg _))
    have eog : started.model.isEog (answer 2).sampledToken = true := by rw [frame.model]; rfl
    have turn : getResponse (turnOf []).query [answer 2] (probeSession own chatTemplate) =
        { query := (turnOf []).query, before := probeSession own chatTemplate, prompt := prompt
          started := started, loop := started.responseLoop [answer 2], ending := .completed
          after := replied.stopCompletion.2 } := by
      unfold getResponse
      simp only [start, responseLoop, call, cstr_marker, eog, if_true, LoopExit.reachesStop]
      cases stopped : replied.stopCompletion with
      | mk outcome last =>
          rw [stopped] at done
          subst done
          rfl
    rw [turn]
    exact ⟨rfl, messages, offset⟩

theorem sameKind_of_offsetsAgree {own : Option CString} {chatTemplate : CString}
    (accepted : llmChatDetectTemplate chatTemplate.bytes ≠ .unknown)
    (known : llmChatDetectTemplate (currTmpl own) ≠ .unknown)
    (agree : OffsetsAgree chatTemplate own) :
    llmChatDetectTemplate (currTmpl own) = llmChatDetectTemplate chatTemplate.bytes := by
  obtain ⟨completed, messages, prevLen⟩ := probe_turn accepted known
  have turns : runTurns [turnOf [2]] (probeSession own chatTemplate) =
      [getResponse (turnOf []).query [answer 2] (probeSession own chatTemplate)] := rfl
  obtain ⟨law, before, _⟩ :=
    getResponse_law (turnOf []).query [answer 2] (probeSession own chatTemplate)
  have agrees := agree _ _ _ _ [turnOf [2]] (probeSession_opened own chatTemplate) rfl rfl
    (by rw [turns]; simpa using completed) _ (by rw [turns]; exact List.mem_singleton_self _)
  have offset := agrees.offset
  have given : (getResponse (turnOf []).query [answer 2]
      (probeSession own chatTemplate)).after.chatTemplate = chatTemplate := by
    rw [law.sameSetup.chatTemplate, before]
    rfl
  have current : llmChatDetectTemplate (currTmpl (some chatTemplate)) ≠ .unknown := accepted
  rw [prevLen, messages, given, llamaChatApplyTemplate_supported current rfl] at offset
  exact kind_of_length known accepted (Int.ofNat_inj.mp offset)

/-- For an accepted template the offset agrees in every run of completed turns
exactly when the model's own template is of the same kind, or unsupported, so that
no turn completes. -/
theorem offsetsAgree_iff {chatTemplate : CString}
    (accepted : llmChatDetectTemplate chatTemplate.bytes ≠ .unknown) (own : Option CString) :
    OffsetsAgree chatTemplate own ↔
      llmChatDetectTemplate (currTmpl own) = llmChatDetectTemplate chatTemplate.bytes ∨
        llmChatDetectTemplate (currTmpl own) = .unknown := by
  constructor
  · intro agree
    by_cases unknown : llmChatDetectTemplate (currTmpl own) = .unknown
    · exact Or.inr unknown
    · exact Or.inl (sameKind_of_offsetsAgree accepted unknown agree)
  · rintro (same | unknown) oracle arguments initial s inputs opened rfl rfl completed t member
    · have session := (openSession_fresh opened).oneTemplate accepted rfl same
      exact (runTurns_supported inputs s session t member).offsetAgrees (completed t member)
    · cases inputs with
      | nil => simp [runTurns] at member
      | cons input rest =>
          exact absurd (completed _ List.mem_cons_self) (not_completed_of_unknown unknown)

theorem offsetsAgree_iff_chatml :
    OffsetsAgree chatmlName (some chatmlName) ↔
      llmChatDetectTemplate (currTmpl (some chatmlName)) =
          llmChatDetectTemplate chatmlName.bytes ∨
        llmChatDetectTemplate (currTmpl (some chatmlName)) = .unknown :=
  offsetsAgree_iff (by decide) (some chatmlName)

/-- A session rendered as `minicpm` on a model without a template, which is
measured as `chatml`: the second prompt starts behind its end. -/
theorem not_offsetsAgree_minicpm :
    let s := loaded (probeModel none) (llamaContext (probeModel none) (paramNCtx 32))
      (probeArguments ⟨lit "minicpm", by decide⟩)
    openSession { model := some (probeModel none), contextAllocated := true }
        (probeArguments ⟨lit "minicpm", by decide⟩) [] = .ok s ∧
      (∀ t ∈ runTurns [turnOf [2]] s, t.ending = .completed) ∧
      (∀ t ∈ runTurns [turnOf [2]] s, t.after.prevLen = 96 ∧
        (t.after.startCompletion (turnOf []).query).1 = .error .badRange) ∧
      ¬ OffsetsAgree ⟨lit "minicpm", by decide⟩ none := by
  refine ⟨openSession_eq (fun unsized => absurd unsized.1 (by decide : paramNCtx 32 ≠ 0)) [],
    by decide +kernel, by decide +kernel, fun agree => ?_⟩
  exact absurd (sameKind_of_offsetsAgree (by decide) (by decide) agree) (by decide)

end MineGPT.Native
