import MineGPT.Chat.Exchange
import MineGPT.Native.Run

/-!
# A session without stored chats

With `storeChats` off, `stopCompletion` stores nothing and `startCompletion`
renders from the beginning.  But it renders all of `_messages`, to which
`startCompletion` and the end of a reply add without a look at the flag.  So the
next prompt is free of earlier turns only when there were none.
-/

set_option autoImplicit false

namespace MineGPT.Native

open MineGPT.Lib.ByteString MineGPT.Lib.Streaming MineGPT.Chat LLMInference

/-- The prompt text that `startCompletion(query)` builds after these turns. -/
def nextPrompt (inputs : List TurnInput) (query : CString) (s : LLMInference) :
    Except Failure Bytes :=
  ((afterTurns inputs s).slicePrompt query).1

theorem assistantMessage_ofTurn (content : CString) : (assistantMessage content).OfTurn := Or.inr rfl

theorem Turn.Law.adds {t : Turn} (law : t.Law) :
    ∃ replies, t.after.messages = t.before.messages ++ userMessage t.query :: replies ∧
      ∀ m ∈ replies, m.OfTurn := by
  have looped : ∃ replies, t.loop.state.messages =
      t.before.messages ++ userMessage t.query :: replies ∧ ∀ m ∈ replies, m.OfTurn := by
    have start := law.start.messages
    by_cases eog : t.loop.exit = .endOfGeneration
    · refine ⟨[assistantMessage (CString.ofBytes
        (t.started.response ++ t.loop.chunks.flatten))], ?_, ?_⟩
      · rw [(law.loop.ended eog).2.2.1, start, List.append_assoc, List.singleton_append]
        rfl
      · intro m member
        rw [List.mem_singleton.mp member]
        exact assistantMessage_ofTurn _
    · refine ⟨[], ?_, by simp⟩
      rw [(law.loop.notEnded eog).2, start]
  obtain ⟨replies, messages, ofTurn⟩ := looped
  cases reached : t.loop.exit.reachesStop with
  | false => exact ⟨replies, by rw [law.left reached, messages], ofTurn⟩
  | true =>
      have stored : ∃ last, t.after.messages = t.loop.state.messages ++ last ∧
          ∀ m ∈ last, m.OfTurn := by
        refine ⟨_, (law.stopped reached).messages, ?_⟩
        split
        · simp [assistantMessage_ofTurn]
        · simp
      obtain ⟨last, stop, lastOfTurn⟩ := stored
      refine ⟨replies ++ last, ?_, ?_⟩
      · rw [stop, messages, List.append_assoc, List.cons_append]
      · intro m member
        exact (List.mem_append.mp member).elim (ofTurn m) (lastOfTurn m)

theorem afterTurns_adds : ∀ (inputs : List TurnInput) (s : LLMInference),
    SameSetup s (afterTurns inputs s) ∧
    ∃ added, (afterTurns inputs s).messages = s.messages ++ added ∧ (∀ m ∈ added, m.OfTurn) ∧
      (inputs = [] ∧ added = [] ∨
        inputs ≠ [] ∧ ∃ question rest, added = userMessage question :: rest) := by
  intro inputs
  induction inputs with
  | nil =>
      intro s
      exact ⟨SameSetup.refl s, [], (List.append_nil _).symm, by simp, Or.inl ⟨rfl, rfl⟩⟩
  | cons input rest ih =>
      intro s
      obtain ⟨law, before, query⟩ := getResponse_law input.query input.oracles s
      have setup := law.sameSetup
      obtain ⟨replies, messages, ofTurn⟩ := law.adds
      obtain ⟨later, added, more, others, _⟩ := ih (getResponse input.query input.oracles s).after
      rw [before] at setup messages
      refine ⟨setup.trans later, userMessage input.query :: (replies ++ added), ?_, ?_, ?_⟩
      · rw [query] at messages
        rw [afterTurns, List.foldl_cons, ← afterTurns, more, messages]
        simp
      · intro m member
        rcases List.mem_cons.mp member with rfl | member
        · exact Or.inl rfl
        · rcases List.mem_append.mp member with here | there
          · exact ofTurn m here
          · exact others m there
      · exact Or.inr ⟨by simp, input.query, replies ++ added, rfl⟩

theorem slicePrompt_forgetful {kind : LlmChatTemplate} (supported : kind ≠ .unknown)
    {s : LLMInference} (forgets : s.storeChats = false)
    (detected : llmChatDetectTemplate s.chatTemplate.bytes = kind) (query : CString) :
    (s.slicePrompt query).1 = .ok (render kind (s.messages ++ [userMessage query]) true) := by
  have offset : s.promptOffset = 0 := by simp [promptOffset, forgets]
  rw [slicePrompt_detected supported detected, offset, if_pos (by omega)]
  rfl

/-- Two sessions build the next prompt from the initial messages alone exactly
when neither had a turn before. -/
theorem nextPrompt_memoryless_iff {oracle₁ oracle₂ : LoadOracle}
    {arguments₁ arguments₂ : LoadArguments} {initial : List LlamaChatMessage}
    {s₁ s₂ : LLMInference} {kind : LlmChatTemplate}
    (opened₁ : openSession oracle₁ arguments₁ initial = .ok s₁)
    (opened₂ : openSession oracle₂ arguments₂ initial = .ok s₂)
    (forgets₁ : arguments₁.storeChats = false) (forgets₂ : arguments₂.storeChats = false)
    (template₁ : llmChatDetectTemplate arguments₁.chatTemplate.bytes = kind)
    (template₂ : llmChatDetectTemplate arguments₂.chatTemplate.bytes = kind)
    (supported : kind ≠ .unknown) (inputs₁ inputs₂ : List TurnInput) (query : CString) :
    (nextPrompt inputs₁ query s₁ = nextPrompt inputs₂ query s₂ ∧
      nextPrompt inputs₁ query s₁ = .ok (render kind (initial ++ [userMessage query]) true)) ↔
      inputs₁ = [] ∧ inputs₂ = [] := by
  have built : ∀ (oracle : LoadOracle) (arguments : LoadArguments) (s : LLMInference)
      (inputs : List TurnInput), openSession oracle arguments initial = .ok s →
      arguments.storeChats = false → llmChatDetectTemplate arguments.chatTemplate.bytes = kind →
      (nextPrompt inputs query s = .ok (render kind (initial ++ [userMessage query]) true) ↔
        inputs = []) := by
    intro oracle arguments s inputs opened forgets template
    have fresh := openSession_fresh opened
    obtain ⟨setup, added, messages, ofTurn, shape⟩ := afterTurns_adds inputs s
    have prompt := slicePrompt_forgetful supported (s := afterTurns inputs s)
      (by rw [setup.storeChats, fresh.storeChats, forgets])
      (by rw [setup.chatTemplate, fresh.chatTemplate, template]) query
    rw [nextPrompt, prompt, messages, fresh.messages]
    rcases shape with ⟨none, rfl⟩ | ⟨some, question, rest, rfl⟩
    · simp [none]
    · have longer := longerWith_render supported true initial (userMessage question) rest
        (userMessage query) rfl (fun m member => ofTurn m (by simp [member])) rfl
      refine iff_of_false (fun same => ?_) some
      exact absurd (congrArg List.length (Except.ok.inj same)) (Nat.ne_of_gt longer)
  have first := built oracle₁ arguments₁ s₁ inputs₁ opened₁ forgets₁ template₁
  have second := built oracle₂ arguments₂ s₂ inputs₂ opened₂ forgets₂ template₂
  constructor
  · rintro ⟨same, text⟩
    exact ⟨first.mp text, second.mp (same ▸ text)⟩
  · rintro ⟨none₁, none₂⟩
    have text := first.mpr none₁
    exact ⟨text.trans (second.mpr none₂).symm, text⟩

theorem nextPrompt_memoryless_iff_hello :
    (nextPrompt [turnOf [1, 2]] (turnOf []).query (smallSession (lit "Hello") false) =
        nextPrompt [] (turnOf []).query (smallSession (lit "Hello") false) ∧
      nextPrompt [turnOf [1, 2]] (turnOf []).query (smallSession (lit "Hello") false) =
        .ok (render .chatml ([] ++ [userMessage (turnOf []).query]) true)) ↔
      [turnOf [1, 2]] = [] ∧ ([] : List TurnInput) = [] :=
  nextPrompt_memoryless_iff (smallSession_opened (lit "Hello") false)
    (smallSession_opened (lit "Hello") false) rfl rfl (by decide +kernel) (by decide +kernel)
    (by decide) [turnOf [1, 2]] [] (turnOf []).query

/-- The first turn's question and reply are in the second turn's prompt. -/
theorem not_nextPrompt_memoryless_hello :
    openSession (smallOracle (lit "Hello")) (smallArguments false) [] =
        .ok (smallSession (lit "Hello") false) ∧
      (∀ t ∈ runTurns [turnOf [1, 2]] (smallSession (lit "Hello") false), t.ending = .completed) ∧
      nextPrompt [turnOf [1, 2]] (turnOf []).query (smallSession (lit "Hello") false) ≠
        nextPrompt [] (turnOf []).query (smallSession (lit "Hello") false) := by
  exact ⟨smallSession_opened _ _, by decide +kernel, by decide +kernel⟩

end MineGPT.Native
