import MineGPT.Native.Run

/-!
# What the model is fed

The prompts and the decoded replies, in decode order, against the full
rendering of the history.  The rendering closes every stored reply with a
marker and holds the empty reply that `stopCompletion` stores, and none of this
is ever fed.  What could make up for the missing bytes is reply text that was
sampled but not stored: text behind a NUL, or an unfinished character.  Such
text holds a byte that is 0 or at least 0x80, and no marker holds one, so
counting these bytes first and all bytes second tells the two texts apart.
-/

set_option autoImplicit false

namespace MineGPT.Native

open MineGPT.Lib.ByteString MineGPT.Chat LLMInference

/-! ## Counting bytes -/

/-- A byte that ends a C string or belongs to a character beyond ASCII. -/
def heavy (b : UInt8) : Bool := b == 0 || 0x80 ≤ b

def heavies (text : Bytes) : Nat := text.countP heavy

@[simp] theorem heavies_append (x y : Bytes) : heavies (x ++ y) = heavies x + heavies y :=
  List.countP_append

theorem heavies_eq_zero {text : Bytes} : heavies text = 0 ↔ ∀ b ∈ text, heavy b = false := by
  simp [heavies, List.countP_eq_zero]

def Drifts (n : Nat) (x y : Bytes) : Prop :=
  heavies y < heavies x ∨ heavies x = heavies y ∧ x.length + n ≤ y.length

theorem Drifts.append_right {n : Nat} {x y : Bytes} (drifts : Drifts n x y) (text : Bytes) :
    Drifts n (x ++ text) (y ++ text) := by
  simp only [Drifts, heavies_append, List.length_append] at drifts ⊢
  omega

theorem heavies_cstr_lt {text : Bytes} (nul : 0 ∈ text) (more : Bytes) :
    heavies (cstr (text ++ more)) < heavies text := by
  obtain ⟨front, behind, rfl, cut⟩ := exists_cstr_append nul
  have heavyNul : heavies (0 :: behind) = heavies behind + 1 := List.countP_cons_of_pos (by decide)
  rw [cut, heavies_append, heavyNul]
  omega

theorem drifts_cstr (text : Bytes) : Drifts 0 text (cstr text) := by
  by_cases nul : 0 ∈ text
  · left
    simpa using heavies_cstr_lt nul []
  · right
    rw [cstr_eq_self nul]
    exact ⟨rfl, Nat.le_refl _⟩

theorem drifts_cstr_closing (text : Bytes) {closing : Bytes}
    (marker : cstr closing = lit "[EOG]") : Drifts 0 text (cstr (text ++ closing)) := by
  by_cases nul : 0 ∈ text
  · exact Or.inl (heavies_cstr_lt nul closing)
  · right
    have plain : heavies (lit "[EOG]") = 0 := by decide
    rw [cstr_append nul, marker, heavies_append, List.length_append, plain]
    omega

theorem LLMInference.Settled.nil_of_plain {s : LLMInference} (settled : s.Settled)
    (plain : heavies s.cacheResponseTokens = 0) : s.cacheResponseTokens = [] := by
  rcases settled with empty | invalid
  · exact empty
  · have valid : isValidUtf8 s.cacheResponseTokens = true := by
      apply isValidUtf8_of_ascii
      intro b member
      have light := heavies_eq_zero.mp plain b member
      simp only [heavy, Bool.or_eq_false_iff, decide_eq_false_iff_not] at light
      grind
    rw [valid] at invalid
    cases invalid

/-! ## Templates that copy the reply -/

/-- The template renders message by message, copies the reply of the assistant
behind the generation prompt and puts a plain marker after it. -/
structure CopiesReply (kind : LlmChatTemplate) (body : LlamaChatMessage → Bytes)
    (generation closing : Bytes) : Prop where
  supported : kind ≠ .unknown
  history : ∀ chat, render kind chat false = chat.flatMap body
  prompt : ∀ chat, render kind chat true = chat.flatMap body ++ generation
  reply : ∀ content, body (assistantMessage content) = generation ++ content.bytes ++ closing
  plain : heavies generation = 0 ∧ heavies closing = 0
  closes : closing ≠ []

theorem copiesReply_of_markers {kind : LlmChatTemplate} {body : LlamaChatMessage → Bytes}
    {generation : Bytes} (front middle closing : Bytes) (supported : kind ≠ .unknown)
    (history : ∀ chat, render kind chat false = chat.flatMap body)
    (prompt : ∀ chat, render kind chat true = chat.flatMap body ++ generation)
    (shape : ∀ m : LlamaChatMessage,
      body m = front ++ m.role.bytes ++ middle ++ m.content.bytes ++ closing)
    (opening : generation = front ++ lit "assistant" ++ middle)
    (plain : heavies generation = 0 ∧ heavies closing = 0) (closes : closing ≠ []) :
    CopiesReply kind body generation closing where
  supported := supported
  history := history
  prompt := prompt
  reply := by
    intro content
    rw [shape, opening]
    rfl
  plain := plain
  closes := closes

def copyingTemplates : List LlmChatTemplate :=
  [.chatml, .phi3, .phi4, .zephyr, .falcon3, .megrez]

theorem exists_copiesReply {kind : LlmChatTemplate} (copying : kind ∈ copyingTemplates) :
    ∃ body generation closing, CopiesReply kind body generation closing := by
  have supported : kind ≠ .unknown := by
    rintro rfl
    simp [copyingTemplates] at copying
  simp only [copyingTemplates, List.mem_cons, List.not_mem_nil, or_false] at copying
  rcases copying with rfl | rfl | rfl | rfl | rfl | rfl
  · exact ⟨chatmlBody, _, _, copiesReply_of_markers (lit "<|im_start|>") (lit "\n")
      (lit "<|im_end|>\n") supported (fun _ => List.append_nil _) (fun _ => rfl)
      (fun _ => rfl) rfl (by decide) (by decide)⟩
  · exact ⟨phi3Body, _, _, copiesReply_of_markers (lit "<|") (lit "|>\n")
      (lit "<|end|>\n") supported (fun _ => List.append_nil _) (fun _ => rfl)
      (fun _ => rfl) rfl (by decide) (by decide)⟩
  · exact ⟨phi4Body, _, _, copiesReply_of_markers (lit "<|im_start|>") (lit "<|im_sep|>")
      (lit "<|im_end|>") supported (fun _ => List.append_nil _) (fun _ => rfl)
      (fun _ => rfl) rfl (by decide) (by decide)⟩
  · exact ⟨zephyrBody, _, _, copiesReply_of_markers (lit "<|") (lit "|>" ++ lit "\n")
      (lit "<|endoftext|>\n") supported (fun _ => List.append_nil _) (fun _ => rfl)
      (fun _ => by simp [zephyrBody]) rfl (by decide) (by decide)⟩
  · exact ⟨falcon3Body, _, _, copiesReply_of_markers (lit "<|") (lit "|>\n")
      (lit "\n") supported (fun _ => List.append_nil _) (fun _ => rfl)
      (fun _ => rfl) rfl (by decide) (by decide)⟩
  · exact ⟨megrezBody, _, _, copiesReply_of_markers (lit "<|role_start|>") (lit "<|role_end|>")
      (lit "<|turn_end|>") supported (fun _ => List.append_nil _) (fun _ => rfl)
      (fun _ => rfl) rfl (by decide) (by decide)⟩

/-! ## One turn -/

/-- The text a turn feeds: its prompt and the pieces decoded after it. -/
def Turn.fed (t : Turn) : Bytes :=
  (if t.startReturned then t.prompt else []) ++ t.loop.decoded.flatten

/-- The part of the rendered history the offset says was fed. -/
def told (kind : LlmChatTemplate) (s : LLMInference) : Bytes :=
  (render kind s.messages false).take s.prevLen.toNat

theorem told_append_drop {kind : LlmChatTemplate} {s : LLMInference}
    (session : OneTemplate kind s) {chat : List LlamaChatMessage} (more : s.messages <+: chat) :
    told kind s ++ (render kind chat true).drop s.prevLen.toNat = render kind chat true := by
  obtain ⟨d, rfl⟩ := more
  obtain ⟨rest, longer⟩ := render_prefix kind s.messages d true
  have inside := session.inside
  have same : told kind s = (render kind (s.messages ++ d) true).take s.prevLen.toNat := by
    rw [told, ← longer, List.take_append_of_le_length (by omega)]
  rw [same, List.take_append_drop]

theorem Turn.Supported.replies {kind : LlmChatTemplate} {t : Turn} (turn : t.Supported kind)
    (completed : t.ending = .completed) (stores : t.before.storeChats = true)
    (empty : t.before.response = []) (settled : t.before.Settled) :
    ∃ (content : CString) (others : Nat), t.after.messages =
        t.started.messages ++ assistantMessage content ::
          List.replicate others (assistantMessage (CString.ofBytes [])) ∧
      Drifts 0 (t.before.cacheResponseTokens ++ t.loop.decoded.flatten)
        (content.bytes ++ t.after.cacheResponseTokens) := by
  have reached := turn.completed completed
  have nothingPending := turn.nothingPending (Turn.startReturned_of_completed completed)
  obtain ⟨ended, inBand⟩ := turn.stored reached stores
  have cache : t.after.cacheResponseTokens = t.loop.state.cacheResponseTokens :=
    (turn.stopped reached).cache
  have conserved := turn.loop.conserved
  rw [turn.start.cache] at conserved
  rcases (reachesStop_iff _).mp reached with eog | marker
  · obtain ⟨closing, _, _, decoded⟩ := turn.loop.ended eog
    refine ⟨CString.ofBytes t.loop.chunks.flatten, 1, ?_, ?_⟩
    · rw [ended eog, empty, turn.start.messages]
      simp
    · rw [closing, List.append_nil] at conserved
      rw [decoded, nothingPending, List.nil_append, conserved, cache]
      exact (drifts_cstr t.loop.chunks.flatten).append_right _
  · obtain ⟨closing, noCache, decoded⟩ := turn.loop.inBand marker
    refine ⟨CString.ofBytes (t.loop.chunks.flatten ++ t.loop.closing), 0, ?_, ?_⟩
    · rw [inBand marker, empty, turn.start.messages]
      simp
    · have startedSettled : t.started.Settled := by
        simpa [Settled, turn.start.cache] using settled
      have split := decoded startedSettled
      rw [nothingPending, List.flatten_nil, List.nil_append] at split
      rw [noCache, List.append_nil, ← split, ← List.append_assoc,
        List.append_cancel_right_eq] at conserved
      rw [cache, noCache, List.append_nil, conserved]
      exact drifts_cstr_closing t.loop.chunks.flatten closing

/-- A completed turn: what was told and fed so far, pending text included, is
behind what it is now told by at least one byte, or ahead of it by a heavy one. -/
theorem Turn.Supported.drifts {kind : LlmChatTemplate} {body : LlamaChatMessage → Bytes}
    {generation closing : Bytes} (copies : CopiesReply kind body generation closing)
    {t : Turn} (turn : t.Supported kind) (completed : t.ending = .completed)
    (stores : t.before.storeChats = true) (empty : t.before.response = [])
    (settled : t.before.Settled) :
    Drifts 1 (told kind t.before ++ t.fed ++ t.before.cacheResponseTokens)
      (told kind t.after ++ t.after.cacheResponseTokens) := by
  obtain ⟨content, others, messages, reply⟩ := turn.replies completed stores empty settled
  have offset : t.started.prevLen = t.before.prevLen := by
    rw [turn.start.prevLen, stores, if_pos rfl]
  have sent : told kind t.before ++ t.prompt = render kind t.started.messages true := by
    rw [turn.prompted, offset]
    apply told_append_drop turn.session
    rw [turn.start.messages]
    exact List.prefix_append _ _
  have behind : told kind t.after = render kind t.after.messages false := by
    rw [told, turn.offset completed, Int.toNat_natCast, List.take_length]
  have stored : render kind t.after.messages false =
      render kind t.started.messages true ++ content.bytes ++ closing ++
        (List.replicate others (assistantMessage (CString.ofBytes []))).flatMap body := by
    rw [copies.history, copies.prompt, messages, List.flatMap_append, List.flatMap_cons,
      copies.reply]
    simp only [List.append_assoc]
  have plainReply : heavies (body (assistantMessage (CString.ofBytes []))) = 0 := by
    rw [copies.reply]
    simp [copies.plain, cstr]
  have plainOthers : heavies
      ((List.replicate others (assistantMessage (CString.ofBytes []))).flatMap body) = 0 := by
    rw [heavies_eq_zero]
    intro b member
    obtain ⟨reply, isEmpty, inBody⟩ := List.mem_flatMap.mp member
    rw [List.eq_of_mem_replicate isEmpty] at inBody
    exact heavies_eq_zero.mp plainReply b inBody
  have length_closing := List.length_pos_of_ne_nil copies.closes
  have plain := copies.plain.2
  rw [behind, stored, Turn.fed, if_pos (Turn.startReturned_of_completed completed),
    ← List.append_assoc, sent]
  simp only [Drifts, heavies_append, List.length_append] at reply ⊢
  omega

/-! ## Runs of completed turns -/

structure BetweenTurns (kind : LlmChatTemplate) (s : LLMInference) : Prop
    extends OneTemplate kind s where
  stores : s.storeChats = true
  response : s.response = []
  settled : s.Settled

theorem Turn.Supported.betweenTurns {kind : LlmChatTemplate} {t : Turn}
    (turn : t.Supported kind) (completed : t.ending = .completed)
    (between : BetweenTurns kind t.before) : BetweenTurns kind t.after where
  toOneTemplate := turn.afterSession
  stores := turn.sameSetup.storeChats.trans between.stores
  response := (turn.stopped (turn.completed completed)).response
  settled := by
    have started : t.started.Settled := by
      simpa [Settled, turn.start.cache] using between.settled
    have left := turn.loop.settled started
    simpa [Settled, (turn.stopped (turn.completed completed)).cache] using left

/-- Induction on the turns: each one adds a missing byte, or a heavy one too
many. -/
theorem runTurns_drifts {kind : LlmChatTemplate} {body : LlamaChatMessage → Bytes}
    {generation closing : Bytes} (copies : CopiesReply kind body generation closing) :
    ∀ (inputs : List TurnInput) (s : LLMInference), BetweenTurns kind s →
      (∀ t ∈ runTurns inputs s, t.ending = .completed) →
      BetweenTurns kind (afterTurns inputs s) ∧
      Drifts inputs.length
        (told kind s ++ (runTurns inputs s).flatMap Turn.fed ++ s.cacheResponseTokens)
        (told kind (afterTurns inputs s) ++ (afterTurns inputs s).cacheResponseTokens) := by
  intro inputs
  induction inputs with
  | nil =>
      intro s between _
      refine ⟨between, Or.inr ?_⟩
      simp [runTurns, afterTurns]
  | cons input rest ih =>
      intro s between completed
      have turn := getResponse_supported between.toOneTemplate input.query input.oracles
      have before := (getResponse_law input.query input.oracles s).2.1
      simp only [runTurns, List.forall_mem_cons, afterTurns, List.foldl_cons] at completed ⊢
      generalize getResponse input.query input.oracles s = t at turn before completed ⊢
      subst before
      have here := turn.drifts copies completed.1 between.stores between.response between.settled
      obtain ⟨betweenThen, later⟩ :=
        ih t.after (turn.betweenTurns completed.1 between) completed.2
      refine ⟨betweenThen, ?_⟩
      simp only [Drifts, afterTurns, heavies_append, List.length_append, List.flatMap_cons,
        List.length_cons] at here later ⊢
      omega

/-- When `startCompletion` returns after a run of completed turns, the text fed
so far and the prompt are the full rendering exactly if there was no turn
before. -/
theorem fed_eq_render_iff {kind : LlmChatTemplate} (copying : kind ∈ copyingTemplates)
    {oracle : LoadOracle} {arguments : LoadArguments} {initial : List LlamaChatMessage}
    {s : LLMInference} (opened : openSession oracle arguments initial = .ok s)
    (stores : arguments.storeChats = true)
    (given : llmChatDetectTemplate arguments.chatTemplate.bytes = kind)
    (own : llmChatDetectTemplate (currTmpl s.model.chatTemplate) = kind)
    {inputs : List TurnInput} (completed : ∀ t ∈ runTurns inputs s, t.ending = .completed)
    {query : CString} {prompt : Bytes}
    (returned : ((afterTurns inputs s).startCompletion query).1 = .ok prompt) :
    (runTurns inputs s).flatMap Turn.fed ++ prompt =
        render kind ((afterTurns inputs s).startCompletion query).2.messages true ↔
      inputs = [] := by
  have fresh := openSession_fresh opened
  obtain ⟨body, generation, closing, copies⟩ := exists_copiesReply copying
  have session := fresh.oneTemplate copies.supported given own
  obtain ⟨between, drifts⟩ := runTurns_drifts copies inputs s
    ⟨session, fresh.storeChats.trans stores, fresh.response, Or.inl fresh.cache⟩ completed
  have frame := startCompletion_frame query (afterTurns inputs s)
  have sliced := slicePrompt_frame query (afterTurns inputs s)
  obtain ⟨built, _⟩ := slicePrompt_supported query between.toOneTemplate
  rw [slicePrompt_of_returned returned, Except.ok.injEq, sliced.messages, sliced.prevLen,
    between.stores, if_pos rfl, ← frame.messages] at built
  have full : told kind (afterTurns inputs s) ++ prompt =
      render kind ((afterTurns inputs s).startCompletion query).2.messages true := by
    rw [built]
    apply told_append_drop between.toOneTemplate
    rw [frame.messages]
    exact List.prefix_append _ _
  have toldNothing : told kind s = [] := by simp [told, fresh.prevLen]
  rw [← full, List.append_cancel_right_eq]
  rw [toldNothing, fresh.cache, List.nil_append, List.append_nil] at drifts
  constructor
  · intro same
    rw [same] at drifts
    simp only [Drifts, heavies_append, List.length_append] at drifts
    have plain : heavies (afterTurns inputs s).cacheResponseTokens = 0 := by omega
    rw [between.settled.nil_of_plain plain, List.length_nil] at drifts
    exact List.length_eq_zero_iff.mp (by omega)
  · intro none
    subst none
    exact toldNothing.symm

theorem fed_eq_render_iff_hello :
    (runTurns [turnOf [1, 2]] (smallSession (lit "Hello") true)).flatMap Turn.fed ++
          lit "<|im_start|>user\nhi<|im_end|>\n<|im_start|>assistant\n" =
        render .chatml
          ((afterTurns [turnOf [1, 2]] (smallSession (lit "Hello") true)).startCompletion
            (turnOf []).query).2.messages true ↔
      [turnOf [1, 2]] = [] :=
  fed_eq_render_iff (show LlmChatTemplate.chatml ∈ copyingTemplates by decide)
    (smallSession_opened (lit "Hello") true) rfl (by decide) (by decide) (by decide +kernel)
    (by decide +kernel)

theorem not_fed_eq_render_hello :
    openSession (smallOracle (lit "Hello")) (smallArguments true) [] =
        .ok (smallSession (lit "Hello") true) ∧
      (smallArguments true).storeChats = true ∧
      (∀ t ∈ runTurns [turnOf [1, 2]] (smallSession (lit "Hello") true),
        t.ending = .completed) ∧
      ((afterTurns [turnOf [1, 2]] (smallSession (lit "Hello") true)).startCompletion
          (turnOf []).query).1 =
        .ok (lit "<|im_start|>user\nhi<|im_end|>\n<|im_start|>assistant\n") ∧
      (runTurns [turnOf [1, 2]] (smallSession (lit "Hello") true)).flatMap Turn.fed ++
          lit "<|im_start|>user\nhi<|im_end|>\n<|im_start|>assistant\n" ≠
        render .chatml
          ((afterTurns [turnOf [1, 2]] (smallSession (lit "Hello") true)).startCompletion
            (turnOf []).query).2.messages true :=
  ⟨smallSession_opened _ _, rfl, by decide +kernel, by decide +kernel, by decide +kernel⟩

end MineGPT.Native
