import MineGPT.Native.Session

/-!
# Runs of turns

One law for a turn of any kind, one for a turn of a session with a single
supported template, and the runs built from turns.  A session is opened by
`loadModel` and the messages added before the first turn.
-/

set_option autoImplicit false

namespace MineGPT.Native

open MineGPT.Lib.ByteString MineGPT.Chat MineGPT.Kv LLMInference

/-! ## Sessions and runs -/

/-- `loadModel`, then one `addChatMessage` for each of the initial messages. -/
def openSession (oracle : LoadOracle) (arguments : LoadArguments)
    (initial : List LlamaChatMessage) : Except Failure LLMInference :=
  (loadModel oracle arguments).map fun s =>
    initial.foldl (fun s message => s.addChatMessage message.content message.role) s

structure TurnInput where
  query : CString
  /-- What the environment answers; the flow is cancelled when this runs out. -/
  oracles : List LoopOracle

def runTurns : List TurnInput → LLMInference → List Turn
  | [], _ => []
  | input :: rest, s =>
    let turn := getResponse input.query input.oracles s
    turn :: runTurns rest turn.after

def afterTurns (inputs : List TurnInput) (s : LLMInference) : LLMInference :=
  inputs.foldl (fun s input => (getResponse input.query input.oracles s).after) s

structure Fresh (arguments : LoadArguments) (initial : List LlamaChatMessage)
    (s : LLMInference) : Prop where
  messages : s.messages = initial
  prevLen : s.prevLen = 0
  response : s.response = []
  cache : s.cacheResponseTokens = []
  storeChats : s.storeChats = arguments.storeChats
  chatTemplate : s.chatTemplate = arguments.chatTemplate
  ctx : s.ctx = llamaContext s.model (paramNCtx arguments.contextSize)

theorem foldl_addChatMessage (initial : List LlamaChatMessage) (s : LLMInference) :
    initial.foldl (fun s message => s.addChatMessage message.content message.role) s =
      { s with messages := s.messages ++ initial } := by
  induction initial generalizing s with
  | nil => simp
  | cons message rest ih =>
      rw [List.foldl_cons, ih]
      simp [addChatMessage]

theorem loadModel_model {oracle : LoadOracle} {arguments : LoadArguments} {s : LLMInference}
    (returned : loadModel oracle arguments = .ok s) :
    ∃ model, oracle.model = some model ∧
      s = loaded model (llamaContext model (paramNCtx arguments.contextSize)) arguments := by
  simp only [loadModel, llamaInitFromModel] at returned
  cases file : oracle.model with
  | none => simp [file] at returned
  | some model =>
      simp only [file] at returned
      by_cases unsized : paramNCtx arguments.contextSize = 0 ∧ model.nCtxTrain = 0
      · simp [unsized] at returned
      · simp only [unsized, if_false] at returned
        split at returned
        · exact ⟨model, rfl, (Except.ok.inj returned).symm⟩
        · simp at returned

theorem loadModel_eq_ok {oracle : LoadOracle} {arguments : LoadArguments} {s : LLMInference}
    (returned : loadModel oracle arguments = .ok s) :
    ∃ model, s = loaded model (llamaContext model (paramNCtx arguments.contextSize))
      arguments :=
  (loadModel_model returned).imp fun _ both => both.2

theorem openSession_eq_ok {oracle : LoadOracle} {arguments : LoadArguments}
    {initial : List LlamaChatMessage} {s : LLMInference}
    (opened : openSession oracle arguments initial = .ok s) :
    ∃ model, s =
      { loaded model (llamaContext model (paramNCtx arguments.contextSize)) arguments with
        messages := initial } := by
  cases returned : loadModel oracle arguments with
  | error failure => simp [openSession, returned, Except.map] at opened
  | ok first =>
      obtain ⟨model, rfl⟩ := loadModel_eq_ok returned
      simp only [openSession, returned, Except.map, foldl_addChatMessage,
        Except.ok.injEq] at opened
      exact ⟨model, opened.symm⟩

theorem openSession_fresh {oracle : LoadOracle} {arguments : LoadArguments}
    {initial : List LlamaChatMessage} {s : LLMInference}
    (opened : openSession oracle arguments initial = .ok s) : Fresh arguments initial s := by
  obtain ⟨model, rfl⟩ := openSession_eq_ok opened
  exact ⟨rfl, rfl, rfl, rfl, rfl, rfl, rfl⟩

theorem openSession_eq {model : LlamaModel} {arguments : LoadArguments}
    (sized : ¬ (paramNCtx arguments.contextSize = 0 ∧ model.nCtxTrain = 0))
    (initial : List LlamaChatMessage) :
    openSession { model := some model, contextAllocated := true } arguments initial =
      .ok { loaded model (llamaContext model (paramNCtx arguments.contextSize)) arguments with
        messages := initial } := by
  simp only [openSession, loadModel, llamaInitFromModel, sized, if_false, if_true, Except.map,
    foldl_addChatMessage]
  rfl

theorem Fresh.oneTemplate {kind : LlmChatTemplate} {arguments : LoadArguments}
    {initial : List LlamaChatMessage} {s : LLMInference} (fresh : Fresh arguments initial s)
    (supported : kind ≠ .unknown)
    (given : llmChatDetectTemplate arguments.chatTemplate.bytes = kind)
    (own : llmChatDetectTemplate (currTmpl s.model.chatTemplate) = kind) :
    OneTemplate kind s where
  supported := supported
  chatTemplate := by rw [fresh.chatTemplate]; exact given
  modelTemplate := own
  nonneg := by rw [fresh.prevLen]
  inside := by rw [fresh.prevLen]; omega

/-! ## One turn, any template -/

def Turn.startReturned (t : Turn) : Bool :=
  match t.ending with
  | .startFailed _ => false
  | _ => true

theorem Turn.startReturned_of_completed {t : Turn} (completed : t.ending = .completed) :
    t.startReturned = true := by
  rw [startReturned, completed]

structure Turn.Law (t : Turn) : Prop where
  start : StartFrame t.query t.before t.started
  loop : LoopLaw t.started t.loop
  left : t.loop.exit.reachesStop = false → t.after = t.loop.state
  stopped : t.loop.exit.reachesStop = true → StopFrame t.loop.state t.after
  completed : t.ending = .completed → t.loop.exit.reachesStop = true
  startFailed : t.startReturned = false → t.loop = t.started.responseLoop []

theorem getResponse_law (query : CString) (oracles : List LoopOracle) (s : LLMInference) :
    (getResponse query oracles s).Law ∧ (getResponse query oracles s).before = s ∧
      (getResponse query oracles s).query = query := by
  have start := startCompletion_frame query s
  unfold getResponse
  cases result : s.startCompletion query with
  | mk outcome started =>
      rw [result] at start
      cases outcome with
      | error failure =>
          exact ⟨⟨start, responseLoop_law [] started, fun _ => rfl,
            by simp [responseLoop, LoopExit.reachesStop], by simp, fun _ => rfl⟩,
            rfl, rfl⟩
      | ok prompt =>
          have loop := responseLoop_law oracles started
          have stop := stopCompletion_frame (started.responseLoop oracles).state
          simp only
          cases reached : (started.responseLoop oracles).exit.reachesStop with
          | false =>
              simp only [Bool.false_eq_true, if_false]
              exact ⟨⟨start, loop, fun _ => rfl, by simp [reached], by simp,
                by simp [Turn.startReturned]⟩, trivial, trivial⟩
          | true =>
              simp only [if_true]
              cases stopped : (started.responseLoop oracles).state.stopCompletion with
              | mk outcome after =>
                  rw [stopped] at stop
                  cases outcome <;>
                    exact ⟨⟨start, loop, by simp [reached], fun _ => stop, by simp [reached],
                      by simp [Turn.startReturned]⟩, rfl, rfl⟩

theorem Turn.Law.sameSetup {t : Turn} (law : t.Law) : SameSetup t.before t.after := by
  have begun := law.start.toSameSetup.trans law.loop.toSameSetup
  cases reached : t.loop.exit.reachesStop with
  | false =>
      rw [law.left reached]
      exact begun
  | true => exact begun.trans (law.stopped reached).toSameSetup

theorem reachesStop_iff (exit : LoopExit) :
    exit.reachesStop = true ↔ exit = .endOfGeneration ∨ exit = .inBand := by
  cases exit <;> simp [LoopExit.reachesStop]

theorem Turn.Law.stored {t : Turn} (law : t.Law) (reached : t.loop.exit.reachesStop = true)
    (stores : t.before.storeChats = true) :
    (t.loop.exit = .endOfGeneration →
      t.after.messages = t.before.messages ++ [userMessage t.query,
        assistantMessage (CString.ofBytes (t.before.response ++ t.loop.chunks.flatten)),
        assistantMessage (CString.ofBytes [])]) ∧
    (t.loop.exit = .inBand →
      t.after.messages = t.before.messages ++ [userMessage t.query,
        assistantMessage (CString.ofBytes
          (t.before.response ++ t.loop.chunks.flatten ++ t.loop.closing))]) := by
  have stop := law.stopped reached
  have storesThen : t.loop.state.storeChats = true := by
    rw [law.loop.storeChats, law.start.storeChats, stores]
  have messages := stop.messages
  rw [storesThen, if_pos rfl] at messages
  constructor
  · intro eog
    obtain ⟨_, response, stored, _⟩ := law.loop.ended eog
    rw [messages, stored, response, law.start.messages, law.start.response]
    simp [assistantMessage]
  · intro inBand
    obtain ⟨response, stored⟩ := law.loop.notEnded (by rw [inBand]; simp)
    rw [messages, stored, response, law.start.messages, law.start.response]
    simp

/-! ## One turn, one supported template -/

structure Turn.Supported (kind : LlmChatTemplate) (t : Turn) : Prop extends t.Law where
  session : OneTemplate kind t.before
  prompted : t.prompt = (render kind t.started.messages true).drop t.started.prevLen.toNat
  fits : (render kind t.started.messages true).length ≤ t.started.formattedMessages.length
  nothingPending : t.startReturned = true → t.started.pendingPieces = []
  reached : t.loop.exit.reachesStop = true → t.ending = .completed
  offset : t.ending = .completed → t.after.prevLen = (render kind t.after.messages false).length

theorem getResponse_supported {kind : LlmChatTemplate} {s : LLMInference}
    (session : OneTemplate kind s) (query : CString) (oracles : List LoopOracle) :
    (getResponse query oracles s).Supported kind := by
  obtain ⟨law, before, _⟩ := getResponse_law query oracles s
  have started := startCompletion_frame query s
  obtain ⟨prompt, fits⟩ := slicePrompt_supported query session
  have session' : OneTemplate kind (getResponse query oracles s).before := by
    rw [before]
    exact session
  rcases startCompletion_cases query s with
    ⟨failure, call, _⟩ | ⟨other, tokens, sliced, _, call⟩
  · have turn : getResponse query oracles s =
        { query := query, before := s, prompt := s.promptText query
          started := (s.slicePrompt query).2
          loop := (s.slicePrompt query).2.responseLoop []
          ending := .startFailed failure, after := (s.slicePrompt query).2 } := by
      unfold getResponse
      rw [call]
    have text : s.promptText query = (render kind (s.slicePrompt query).2.messages true).drop
        (s.slicePrompt query).2.prevLen.toNat := by
      unfold LLMInference.promptText
      rw [prompt]
    rw [turn] at law session' ⊢
    exact ⟨law, session', text, fits, fun returned => absurd returned Bool.false_ne_true,
      fun stops => absurd stops Bool.false_ne_true, fun done => by cases done⟩
  · rw [call] at started
    rw [prompt, Except.ok.injEq] at sliced
    have loop := responseLoop_law oracles (s.startCompletion query).2
    rw [call] at loop
    obtain ⟨returned, _, offset⟩ :=
      stopCompletion_supported (loop.oneTemplate (started.oneTemplate session))
    dsimp only at returned offset
    generalize left : LLMInference.responseLoop oracles
      { (s.slicePrompt query).2 with
        promptTokens := tokens
        batch := { token := .promptTokens, nTokens := tokens.length } } = result at returned offset
    cases reached : result.exit.reachesStop with
    | false =>
        have turn : getResponse query oracles s =
            { query := query, before := s, prompt := other
              started := { (s.slicePrompt query).2 with
                promptTokens := tokens
                batch := { token := .promptTokens, nTokens := tokens.length } }
              loop := result, ending := .abandoned, after := result.state } := by
          unfold getResponse
          rw [call]
          dsimp only
          rw [left, reached, if_neg Bool.false_ne_true]
        rw [turn] at law session' ⊢
        exact ⟨law, session', sliced.symm, fits, fun _ => rfl,
          fun stops => absurd (reached.symm.trans stops) Bool.false_ne_true,
          fun done => by cases done⟩
    | true =>
        have turn : getResponse query oracles s =
            { query := query, before := s, prompt := other
              started := { (s.slicePrompt query).2 with
                promptTokens := tokens
                batch := { token := .promptTokens, nTokens := tokens.length } }
              loop := result, ending := .completed, after := result.state.stopCompletion.2 } := by
          have stopped : result.state.stopCompletion = (.ok (), result.state.stopCompletion.2) :=
            Prod.ext returned rfl
          unfold getResponse
          rw [call]
          dsimp only
          rw [left, reached, if_pos rfl, stopped]
        rw [turn] at law session' ⊢
        exact ⟨law, session', sliced.symm, fits, fun _ => rfl, fun _ => rfl, fun _ => offset⟩

namespace Turn.Supported

variable {kind : LlmChatTemplate} {t : Turn}

theorem startedSession (turn : t.Supported kind) : OneTemplate kind t.started :=
  turn.start.oneTemplate turn.session

theorem afterSession (turn : t.Supported kind) : OneTemplate kind t.after := by
  have left := turn.loop.oneTemplate turn.startedSession
  cases reached : t.loop.exit.reachesStop with
  | false =>
      rw [turn.left reached]
      exact left
  | true =>
      have frame := turn.stopped reached
      have offset := turn.offset (turn.reached reached)
      exact ⟨left.supported, by rw [frame.chatTemplate]; exact left.chatTemplate,
        by rw [frame.model]; exact left.modelTemplate, by omega, by omega⟩

theorem completed_iff (turn : t.Supported kind) :
    t.ending = .completed ↔ t.loop.exit.reachesStop = true :=
  ⟨turn.completed, turn.reached⟩

end Turn.Supported

theorem runTurns_supported {kind : LlmChatTemplate} : ∀ (inputs : List TurnInput)
    (s : LLMInference), OneTemplate kind s → ∀ t ∈ runTurns inputs s, t.Supported kind := by
  intro inputs
  induction inputs with
  | nil => intro s _ t member; simp [runTurns] at member
  | cons input rest ih =>
      intro s session t member
      have turn := getResponse_supported session input.query input.oracles
      rcases List.mem_cons.mp member with rfl | later
      · exact turn
      · exact ih _ turn.afterSession t later

/-! ## A model of three tokens

Token 0 stands for a whole prompt, token 1 is one piece of text and token 2
ends the reply. -/

def chatmlName : CString := ⟨lit "chatml", by decide⟩

def smallModel (piece : Bytes) : LlamaModel where
  nTokens := 3
  commonTokenize := fun _ => .ok [0]
  commonTokenToPiece := fun token => if token = 1 then piece else []
  isEog := fun token => token = 2
  chatTemplate := some chatmlName
  nCtxTrain := 32
  causalAttn := true
  recurrent := false

def smallArguments (storeChats : Bool) : LoadArguments where
  storeChats := storeChats
  contextSize := 32
  chatTemplate := chatmlName

def smallSession (piece : Bytes) (storeChats : Bool) : LLMInference :=
  loaded (smallModel piece) (llamaContext (smallModel piece) (paramNCtx 32))
    (smallArguments storeChats)

def smallOracle (piece : Bytes) : LoadOracle :=
  { model := some (smallModel piece), contextAllocated := true }

theorem smallSession_opened (piece : Bytes) (storeChats : Bool) :
    openSession (smallOracle piece) (smallArguments storeChats) [] =
      .ok (smallSession piece storeChats) :=
  openSession_eq (fun unsized => absurd unsized.1 (by decide : paramNCtx 32 ≠ 0)) []

/-- Every computation succeeds and the given token is sampled. -/
def answer (token : Int) : LoopOracle where
  outputReserved := true
  computeStatus := fun _ => .success
  neverAborted := fun _ => by decide
  sampledToken := token

def turnOf (tokens : List Int) : TurnInput :=
  { query := ⟨lit "hi", by decide⟩, oracles := tokens.map answer }

end MineGPT.Native
