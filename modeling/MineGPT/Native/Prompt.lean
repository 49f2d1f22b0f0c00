import MineGPT.Native.Run

/-!
# Prompts

`startCompletion` sends the rendering from `_prevLen` on.  Only
`stopCompletion` moves `_prevLen`, so the prompt is the text added since the
last `stopCompletion`; a turn that was abandoned in between is sent again.
-/

set_option autoImplicit false

namespace MineGPT.Native

open MineGPT.Lib.ByteString MineGPT.Chat LLMInference

/-! ## No query is sent twice -/

/-- The prompt of `later` renders only messages added after the prompt of
`earlier` was built: it lies behind the text of all messages `earlier` had. -/
def OnlyNew (kind : LlmChatTemplate) (earlier later : Turn) : Prop :=
  later.prompt <:+
    (render kind later.started.messages true).drop
      (render kind earlier.started.messages false).length

theorem drop_suffix_drop_iff {α : Type} (l : List α) {a b : Nat} (inside : b ≤ l.length) :
    l.drop a <:+ l.drop b ↔ b ≤ a := by
  constructor
  · intro suffix
    have := suffix.length_le
    simp only [List.length_drop] at this
    by_contra before
    omega
  · intro behind
    exact List.drop_suffix_drop_left l behind

theorem Turn.Supported.more {kind : LlmChatTemplate} {t : Turn} (turn : t.Supported kind) :
    t.started.messages <+: t.after.messages := by
  have loop := turn.loop.more
  cases reached : t.loop.exit.reachesStop with
  | false =>
      rw [turn.left reached]
      exact loop
  | true =>
      rw [(turn.stopped reached).messages]
      exact loop.trans (List.prefix_append _ _)

theorem onlyNew_iff {kind : LlmChatTemplate} {t next : Turn} (turn : t.Supported kind)
    (nextTurn : next.Supported kind) (after : next.before = t.after)
    (stores : t.before.storeChats = true) :
    OnlyNew kind t next ↔ t.ending = .completed := by
  have storesThen : next.before.storeChats = true := by
    rw [after, turn.sameSetup.storeChats, stores]
  have offset : next.started.prevLen = t.after.prevLen := by
    rw [nextTurn.start.prevLen, storesThen, if_pos rfl, after]
  have grown : t.started.messages <+: next.started.messages := by
    rw [nextTurn.start.messages, after]
    exact turn.more.trans (List.prefix_append _ _)
  have inside : (render kind t.started.messages false).length ≤
      (render kind next.started.messages true).length :=
    (render_length_mono kind grown).trans (render_false_prefix_true kind _).length_le
  rw [OnlyNew, nextTurn.prompted, drop_suffix_drop_iff _ inside, offset]
  constructor
  · intro behind
    by_contra notCompleted
    have reached : t.loop.exit.reachesStop = false := by
      rw [← Bool.not_eq_true, ← turn.completed_iff]
      exact notCompleted
    have stale : t.after.prevLen = t.before.prevLen := by
      rw [turn.left reached, turn.loop.prevLen, turn.start.prevLen, stores, if_pos rfl]
    have told := turn.session.inside
    have unseen := render_user_grows turn.session.supported t.query t.before.messages
    simp only [← turn.start.messages] at unseen
    omega
  · intro completed
    have := render_length_mono kind turn.more
    rw [turn.offset completed]
    omega

theorem isChain_onlyNew_iff {kind : LlmChatTemplate} :
    ∀ (inputs : List TurnInput) (s : LLMInference), OneTemplate kind s →
      s.storeChats = true →
      ((runTurns inputs s).IsChain (OnlyNew kind) ↔
        ∀ t ∈ (runTurns inputs s).dropLast, t.ending = .completed) := by
  intro inputs
  -- induction on the turns, two at a time
  induction inputs with
  | nil => intro s _ _; simp [runTurns]
  | cons input rest ih =>
      intro s session stores
      have turn := getResponse_supported session input.query input.oracles
      have before := (getResponse_law input.query input.oracles s).2.1
      have next := ih (getResponse input.query input.oracles s).after turn.afterSession
        (by rw [turn.sameSetup.storeChats, before, stores])
      simp only [runTurns]
      generalize getResponse input.query input.oracles s = t at turn before next ⊢
      cases rest with
      | nil => simp [runTurns]
      | cons input' rest' =>
          have turn' := getResponse_supported turn.afterSession input'.query input'.oracles
          have before' := (getResponse_law input'.query input'.oracles t.after).2.1
          have two := onlyNew_iff turn turn' before' (by rw [before, stores])
          simp only [runTurns, List.isChain_cons_cons, List.dropLast_cons_cons,
            List.forall_mem_cons] at next ⊢
          rw [two, next]

/-- In a session that stores its chats, every prompt holds only messages added
since the prompt before it exactly when every turn but the last completes. -/
theorem promptsOnlyNew_iff {kind : LlmChatTemplate} {oracle : LoadOracle}
    {arguments : LoadArguments} {initial : List LlamaChatMessage} {s : LLMInference}
    (opened : openSession oracle arguments initial = .ok s)
    (stores : arguments.storeChats = true) (supported : kind ≠ .unknown)
    (given : llmChatDetectTemplate arguments.chatTemplate.bytes = kind)
    (own : llmChatDetectTemplate (currTmpl s.model.chatTemplate) = kind)
    (inputs : List TurnInput) :
    (runTurns inputs s).IsChain (OnlyNew kind) ↔
      ∀ t ∈ (runTurns inputs s).dropLast, t.ending = .completed := by
  have fresh := openSession_fresh opened
  exact isChain_onlyNew_iff inputs s (fresh.oneTemplate supported given own)
    (fresh.storeChats.trans stores)

theorem promptsOnlyNew_iff_hello :
    (runTurns [turnOf [1, 2], turnOf [1]] (smallSession (lit "Hello") true)).IsChain
        (OnlyNew .chatml) ↔
      ∀ t ∈ (runTurns [turnOf [1, 2], turnOf [1]] (smallSession (lit "Hello") true)).dropLast,
        t.ending = .completed :=
  promptsOnlyNew_iff (smallSession_opened (lit "Hello") true) rfl (by decide) (by decide)
    (by decide) [turnOf [1, 2], turnOf [1]]

/-- After a cancelled turn its query is sent a second time. -/
theorem not_promptsOnlyNew_cancelled :
    openSession (smallOracle (lit "Hello")) (smallArguments true) [] =
        .ok (smallSession (lit "Hello") true) ∧
      (smallArguments true).storeChats = true ∧
      llmChatDetectTemplate (smallArguments true).chatTemplate.bytes = .chatml ∧
      llmChatDetectTemplate (currTmpl (smallSession (lit "Hello") true).model.chatTemplate) =
        .chatml ∧
      ¬ (runTurns [turnOf [1], turnOf [1, 2]] (smallSession (lit "Hello") true)).IsChain
        (OnlyNew .chatml) := by
  refine ⟨smallSession_opened _ _, rfl, by decide, by decide, ?_⟩
  intro chain
  simp only [runTurns, List.isChain_cons_cons] at chain
  have suffix := chain.1.length_le
  revert suffix
  decide +kernel

/-! ## The slice is the new text -/

inductive Action where
  | addChatMessage (message role : CString)
  | turn (input : TurnInput)

/-- A turn with the messages held when `stopCompletion` was last called. -/
structure PromptRecord where
  turn : Turn
  lastStop : Option (List LlamaChatMessage)

def runActions : List Action → Option (List LlamaChatMessage) → LLMInference →
    List PromptRecord
  | [], _, _ => []
  | .addChatMessage message role :: rest, lastStop, s =>
    runActions rest lastStop (s.addChatMessage message role)
  | .turn input :: rest, lastStop, s =>
    let turn := getResponse input.query input.oracles s
    { turn := turn, lastStop := lastStop } ::
      runActions rest
        (if turn.loop.exit.reachesStop then some turn.after.messages else lastStop) turn.after

def toldLength (kind : LlmChatTemplate) : Option (List LlamaChatMessage) → Nat
  | none => 0
  | some messages => (render kind messages false).length

/-- The text full rendering adds since the last `stopCompletion`. -/
def newText (kind : LlmChatTemplate) (record : PromptRecord) : Bytes :=
  (render kind record.turn.started.messages true).drop (toldLength kind record.lastStop)

structure SliceInBounds (kind : LlmChatTemplate) (t : Turn) : Prop where
  nonneg : 0 ≤ t.started.prevLen
  le_newLen : t.started.prevLen ≤ (render kind t.started.messages true).length
  le_size : (render kind t.started.messages true).length ≤ t.started.formattedMessages.length

theorem Turn.Supported.sliceInBounds {kind : LlmChatTemplate} {t : Turn}
    (turn : t.Supported kind) : SliceInBounds kind t where
  nonneg := turn.startedSession.nonneg
  le_newLen := by
    have := turn.startedSession.inside
    have := (render_false_prefix_true kind t.started.messages).length_le
    omega
  le_size := turn.fits

theorem LLMInference.OneTemplate.addChatMessage {kind : LlmChatTemplate} {s : LLMInference}
    (session : OneTemplate kind s) (message role : CString) :
    OneTemplate kind (s.addChatMessage message role) :=
  session.grow ⟨rfl, rfl, rfl, rfl⟩ (Or.inl rfl) (List.prefix_append _ _)

def OffsetKept (kind : LlmChatTemplate) (lastStop : Option (List LlamaChatMessage))
    (s : LLMInference) : Prop :=
  s.storeChats = true → s.prevLen = toldLength kind lastStop

theorem offsetKept_after {kind : LlmChatTemplate} {t : Turn} (turn : t.Supported kind)
    {lastStop : Option (List LlamaChatMessage)} (kept : OffsetKept kind lastStop t.before) :
    OffsetKept kind (if t.loop.exit.reachesStop then some t.after.messages else lastStop)
      t.after := by
  intro stores
  rw [turn.sameSetup.storeChats] at stores
  cases reached : t.loop.exit.reachesStop with
  | false =>
      simp only [Bool.false_eq_true, if_false]
      rw [turn.left reached, turn.loop.prevLen, turn.start.prevLen, stores, if_pos rfl]
      exact kept stores
  | true => exact turn.offset (turn.completed_iff.mpr reached)

theorem prompt_eq {kind : LlmChatTemplate} {t : Turn} (turn : t.Supported kind)
    {lastStop : Option (List LlamaChatMessage)} (kept : OffsetKept kind lastStop t.before) :
    t.prompt = if t.before.storeChats then newText kind { turn := t, lastStop := lastStop }
      else render kind t.started.messages true := by
  rw [turn.prompted, turn.start.prevLen]
  cases stores : t.before.storeChats with
  | false => simp
  | true => simp [newText, kept stores]

theorem runActions_prompt {kind : LlmChatTemplate} :
    ∀ (actions : List Action) (lastStop : Option (List LlamaChatMessage)) (s : LLMInference),
      OneTemplate kind s → OffsetKept kind lastStop s →
      ∀ record ∈ runActions actions lastStop s,
        SliceInBounds kind record.turn ∧
        record.turn.prompt = if s.storeChats then newText kind record
          else render kind record.turn.started.messages true := by
  intro actions
  -- induction on the actions; the offset is kept between turns
  induction actions with
  | nil => intro lastStop s _ _ record member; simp [runActions] at member
  | cons action rest ih =>
      intro lastStop s session kept record member
      cases action with
      | addChatMessage message role =>
          exact ih lastStop _ (session.addChatMessage message role) kept record member
      | turn input =>
          have turn := getResponse_supported session input.query input.oracles
          have before := (getResponse_law input.query input.oracles s).2.1
          simp only [runActions] at member
          generalize getResponse input.query input.oracles s = t at turn before member
          rw [← before] at kept ⊢
          rcases List.mem_cons.mp member with here | later
          · subst here
            exact ⟨turn.sliceInBounds, prompt_eq turn kept⟩
          · rw [← turn.sameSetup.storeChats]
            exact ih _ t.after turn.afterSession (offsetKept_after turn kept) record later

/-- Delta rendering is sound for every supported template: histories are
rendered append-only, so in every session with that template and from every
initial buffer the slice is in bounds; it is the text added since the last
`stopCompletion` where chats are stored, and the whole rendering where they are
not. -/
theorem deltaRendering {kind : LlmChatTemplate} (supported : kind ≠ .unknown) :
    (∀ (h d : List LlamaChatMessage) (addAss : Bool), ∃ text longer,
      llmChatApplyTemplate kind h false = some text ∧
      llmChatApplyTemplate kind (h ++ d) addAss = some longer ∧ text <+: longer) ∧
    ∀ (oracle : LoadOracle) (arguments : LoadArguments) (initial : List LlamaChatMessage)
      (s : LLMInference) (buffer : Bytes) (actions : List Action),
      openSession oracle arguments initial = .ok s →
      llmChatDetectTemplate arguments.chatTemplate.bytes = kind →
      llmChatDetectTemplate (currTmpl s.model.chatTemplate) = kind →
      ∀ record ∈ runActions actions none { s with formattedMessages := buffer },
        SliceInBounds kind record.turn ∧
        record.turn.prompt = if arguments.storeChats then newText kind record
          else render kind record.turn.started.messages true := by
  refine ⟨fun h d addAss => ?_, ?_⟩
  · exact ⟨_, _, llmChatApplyTemplate_eq_render supported h false,
      llmChatApplyTemplate_eq_render supported (h ++ d) addAss, render_prefix kind h d addAss⟩
  · intro oracle arguments initial s buffer actions opened given own
    have fresh := openSession_fresh opened
    have session := fresh.oneTemplate supported given own
    rw [← fresh.storeChats]
    exact runActions_prompt actions none { s with formattedMessages := buffer }
      (session.grow ⟨rfl, rfl, rfl, rfl⟩ (Or.inl rfl) (List.prefix_refl _))
      (fun _ => fresh.prevLen)

theorem deltaRendering_chatml :
    (∀ (h d : List LlamaChatMessage) (addAss : Bool), ∃ text longer,
      llmChatApplyTemplate .chatml h false = some text ∧
      llmChatApplyTemplate .chatml (h ++ d) addAss = some longer ∧ text <+: longer) ∧
    ∀ record ∈ runActions [.turn (turnOf [1, 2])] none
        { smallSession (lit "Hello") true with formattedMessages := [] },
      SliceInBounds .chatml record.turn ∧ record.turn.prompt = newText .chatml record := by
  have sound := deltaRendering (show LlmChatTemplate.chatml ≠ .unknown by decide)
  exact ⟨sound.1, sound.2 (smallOracle (lit "Hello")) (smallArguments true) []
    (smallSession (lit "Hello") true) [] [.turn (turnOf [1, 2])]
    (smallSession_opened _ _) (by decide) (by decide)⟩

/-- Without stored chats the second prompt repeats the first turn. -/
theorem not_newText_withoutStore :
    openSession (smallOracle (lit "Hello")) (smallArguments false) [] =
        .ok (smallSession (lit "Hello") false) ∧
      llmChatDetectTemplate (smallArguments false).chatTemplate.bytes = .chatml ∧
      llmChatDetectTemplate (currTmpl (smallSession (lit "Hello") false).model.chatTemplate) =
        .chatml ∧
      (∀ record ∈ runActions [.turn (turnOf [1, 2]), .turn (turnOf [1, 2])] none
          (smallSession (lit "Hello") false), record.turn.ending = .completed) ∧
      ∃ record ∈ runActions [.turn (turnOf [1, 2]), .turn (turnOf [1, 2])] none
          (smallSession (lit "Hello") false),
        record.turn.prompt ≠ newText .chatml record :=
  ⟨smallSession_opened _ _, by decide, by decide, by decide +kernel, by decide +kernel⟩

end MineGPT.Native
