import MineGPT.Native.Inference

/-!
# One turn

`LLMTalker.getResponse`: `startCompletion`, then `completionLoop` until the
string it returns reads `[EOG]`, then `stopCompletion`.  The flow can be
cancelled at every emitted piece, and every native call can throw; the code
after the loop is then skipped.

A turn is recorded with what went through it: the strings the loop emitted, the
pieces of the tokens sampled and of the tokens decoded.
-/

set_option autoImplicit false

namespace MineGPT.Native

open MineGPT.Lib.ByteString MineGPT.Chat MineGPT.Kv

inductive LoopExit where
  | endOfGeneration
  /-- A piece of the reply itself reads `[EOG]`. -/
  | inBand
  | cancelled
  | failed (failure : Failure)
  deriving DecidableEq, Repr

def LoopExit.reachesStop : LoopExit → Bool
  | .endOfGeneration => true
  | .inBand => true
  | .cancelled => false
  | .failed _ => false

structure LoopResult where
  chunks : List Bytes
  /-- The part of the reply in the string that ended the loop. -/
  closing : Bytes
  /-- The pieces of the sampled tokens, without the end-of-generation token. -/
  pieces : List Bytes
  /-- The pieces of those of them that were decoded into the KV cache. -/
  decoded : List Bytes
  exit : LoopExit
  state : LLMInference

namespace LLMInference

/-- The reply text that the next `llama_decode` puts into the KV cache. -/
def pendingPieces (s : LLMInference) : List Bytes :=
  match s.batch.token with
  | .currToken => [s.model.commonTokenToPiece s.currToken]
  | _ => []

def decodedPieces (oracle : LoopOracle) (s : LLMInference) : List Bytes :=
  if (s.llamaDecode oracle.toDecodeOracle).outcome = .returned 0 then s.pendingPieces else []

/-- The loop of `getResponse`; the flow is cancelled when the answers run out.
`NewStringUTF` reads the returned string up to its first NUL. -/
def responseLoop : List LoopOracle → LLMInference → LoopResult
  | [], s =>
    { chunks := [], closing := [], pieces := [], decoded := [], exit := .cancelled, state := s }
  | oracle :: rest, s =>
    match s.completionLoop oracle with
    | (.error failure, after) =>
      { chunks := [], closing := [], pieces := [], decoded := [], exit := .failed failure
        state := after }
    | (.ok text, after) =>
      let eog := s.model.isEog oracle.sampledToken
      let sampled := if eog then [] else [s.model.commonTokenToPiece oracle.sampledToken]
      if cstr text = lit "[EOG]" then
        { chunks := [], closing := if eog then [] else text, pieces := sampled
          decoded := s.decodedPieces oracle
          exit := if eog then .endOfGeneration else .inBand
          state := after }
      else
        let later := responseLoop rest after
        { later with
          chunks := text :: later.chunks
          pieces := sampled ++ later.pieces
          decoded := s.decodedPieces oracle ++ later.decoded }

end LLMInference

inductive TurnEnd where
  | startFailed (failure : Failure)
  /-- The loop was left by a cancellation or an exception. -/
  | abandoned
  | stopFailed (failure : Failure)
  | completed
  deriving DecidableEq, Repr

structure Turn where
  query : CString
  before : LLMInference
  /-- The prompt that was handed to the tokenizer. -/
  prompt : Bytes
  started : LLMInference
  loop : LoopResult
  ending : TurnEnd
  after : LLMInference

/-- The prompt that `startCompletion` builds, if it comes to it. -/
def LLMInference.promptText (query : CString) (s : LLMInference) : Bytes :=
  match (s.slicePrompt query).1 with
  | .ok prompt => prompt
  | .error _ => []

def getResponse (query : CString) (oracles : List LoopOracle) (s : LLMInference) : Turn :=
  match s.startCompletion query with
  | (.error failure, started) =>
    { query := query, before := s, prompt := s.promptText query, started := started
      loop := started.responseLoop []
      ending := .startFailed failure, after := started }
  | (.ok prompt, started) =>
    let loop := started.responseLoop oracles
    let turn : TurnEnd → LLMInference → Turn := fun ending after =>
      { query := query, before := s, prompt := prompt, started := started, loop := loop
        ending := ending, after := after }
    if loop.exit.reachesStop then
      match loop.state.stopCompletion with
      | (.ok (), after) => turn .completed after
      | (.error failure, after) => turn (.stopFailed failure) after
    else turn .abandoned loop.state

/-! ## What one call changes -/

namespace LLMInference

/-- The members that stay as `loadModel` set them. -/
structure SameSetup (s t : LLMInference) : Prop where
  model : t.model = s.model
  cparams : t.ctx.cparams = s.ctx.cparams
  chatTemplate : t.chatTemplate = s.chatTemplate
  storeChats : t.storeChats = s.storeChats

theorem SameSetup.refl (s : LLMInference) : SameSetup s s := ⟨rfl, rfl, rfl, rfl⟩

theorem SameSetup.trans {s t u : LLMInference} (first : SameSetup s t)
    (second : SameSetup t u) : SameSetup s u where
  model := second.model.trans first.model
  cparams := second.cparams.trans first.cparams
  chatTemplate := second.chatTemplate.trans first.chatTemplate
  storeChats := second.storeChats.trans first.storeChats

/-- `completionLoop` leaves the offset of the next prompt alone as well. -/
structure LoopFrame (s t : LLMInference) : Prop extends SameSetup s t where
  prevLen : t.prevLen = s.prevLen

theorem LoopFrame.refl (s : LLMInference) : LoopFrame s s := ⟨SameSetup.refl s, rfl⟩

theorem LoopFrame.trans {s t u : LLMInference} (first : LoopFrame s t)
    (second : LoopFrame t u) : LoopFrame s u :=
  ⟨first.toSameSetup.trans second.toSameSetup, second.prevLen.trans first.prevLen⟩

structure Threw (s t : LLMInference) : Prop extends LoopFrame s t where
  messages : t.messages = s.messages
  response : t.response = s.response
  cache : t.cacheResponseTokens = s.cacheResponseTokens

structure Ended (s t : LLMInference) : Prop extends LoopFrame s t where
  messages : t.messages = s.messages ++
    [{ role := roleAssistant, content := CString.ofBytes s.response }]
  response : t.response = []
  cache : t.cacheResponseTokens = s.cacheResponseTokens

/-- No pending text, or an unfinished character. -/
def Settled (s : LLMInference) : Prop :=
  s.cacheResponseTokens = [] ∨ isValidUtf8 s.cacheResponseTokens = false

/-- What stays pending after the pieces were looked at one by one. -/
def residue (pending : Bytes) (pieces : List Bytes) : Bytes :=
  pieces.foldl
    (fun pending piece => if isValidUtf8 (pending ++ piece) then [] else pending ++ piece)
    pending

/-- A call that samples a piece: it goes out with the text pending before it,
or stays pending with it. -/
structure Sampled (s t : LLMInference) (piece text : Bytes) : Prop extends LoopFrame s t where
  messages : t.messages = s.messages
  response : t.response = s.response ++ text
  conserved : s.cacheResponseTokens ++ piece = text ++ t.cacheResponseTokens
  flushed : text ≠ [] → t.cacheResponseTokens = []
  cache : t.cacheResponseTokens = residue s.cacheResponseTokens [piece]
  settled : t.Settled
  pending : t.pendingPieces = [piece]

theorem decodeBatch_frame (oracle : DecodeOracle) (s : LLMInference) :
    ∃ used kv, (s.decodeBatch oracle).2 =
      { s with nCtxUsed := used, ctx := { s.ctx with kv := kv } } := by
  simp only [decodeBatch]
  split
  · exact ⟨_, s.ctx.kv, rfl⟩
  · exact ⟨_, _, rfl⟩

theorem decodedPieces_of_passed {oracle : LoopOracle} {s : LLMInference}
    (passed : (s.decodeBatch oracle.toDecodeOracle).1 = .ok ()) :
    s.decodedPieces oracle = s.pendingPieces := by
  have done : (s.llamaDecode oracle.toDecodeOracle).outcome = .returned 0 := by
    simp only [decodeBatch] at passed
    split at passed
    · simp at passed
    · simp only at passed
      cases outcome : (s.llamaDecode oracle.toDecodeOracle).outcome with
      | returned ret =>
          have nonpos : ret ≤ 0 := decode_nonpos oracle.neverAborted outcome
          rw [outcome, decodeVerdict] at passed
          split at passed
          · simp at passed
          · congr 1
            omega
      | threw what => simp [outcome, decodeVerdict] at passed
      | assertFailed => simp [outcome, decodeVerdict] at passed
      | diverged => simp [outcome, decodeVerdict] at passed
  rw [decodedPieces, if_pos done]

theorem takeToken_eog {s : LLMInference} {token : Int} (eog : s.model.isEog token = true) :
    (s.takeToken token).1 = lit "[EOG]" ∧ Ended s (s.takeToken token).2 := by
  simp only [takeToken, eog, if_true, addChatMessage]
  exact ⟨trivial, ⟨⟨rfl, rfl, rfl, rfl⟩, rfl⟩, rfl, rfl, rfl⟩

theorem takeToken_piece {s : LLMInference} {token : Int}
    (notEog : s.model.isEog token = false) :
    Sampled s (s.takeToken token).2 (s.model.commonTokenToPiece token)
      (s.takeToken token).1 := by
  simp only [takeToken, notEog, Bool.false_eq_true, if_false]
  cases valid : isValidUtf8 (s.cacheResponseTokens ++ s.model.commonTokenToPiece token) with
  | true =>
      exact ⟨⟨⟨rfl, rfl, rfl, rfl⟩, rfl⟩, rfl, rfl, (List.append_nil _).symm, fun _ => rfl,
        by simp [residue, valid], Or.inl rfl, rfl⟩
  | false =>
      exact ⟨⟨⟨rfl, rfl, rfl, rfl⟩, rfl⟩, rfl, (List.append_nil _).symm, rfl,
        fun text => absurd rfl text, by simp [residue, valid], Or.inr valid, rfl⟩

theorem completionLoop_cases (oracle : LoopOracle) (s : LLMInference) :
    (∃ failure after, s.completionLoop oracle = (.error failure, after) ∧ Threw s after) ∨
    (s.model.isEog oracle.sampledToken = true ∧ s.decodedPieces oracle = s.pendingPieces ∧
      ∃ after, s.completionLoop oracle = (.ok (lit "[EOG]"), after) ∧ Ended s after) ∨
    (s.model.isEog oracle.sampledToken = false ∧ s.decodedPieces oracle = s.pendingPieces ∧
      ∃ text after, s.completionLoop oracle = (.ok text, after) ∧
        Sampled s after (s.model.commonTokenToPiece oracle.sampledToken) text) := by
  obtain ⟨used, kv, frame⟩ := decodeBatch_frame oracle.toDecodeOracle s
  cases outcome : s.decodeBatch oracle.toDecodeOracle with
  | mk result decoded =>
      have state : decoded = { s with nCtxUsed := used, ctx := { s.ctx with kv := kv } } := by
        rw [outcome] at frame
        exact frame
      cases result with
      | error failure =>
          left
          refine ⟨failure, decoded, by simp [completionLoop, outcome], ?_⟩
          subst state
          exact ⟨⟨⟨rfl, rfl, rfl, rfl⟩, rfl⟩, rfl, rfl, rfl⟩
      | ok passed =>
          right
          have returns : s.completionLoop oracle =
              (.ok (decoded.takeToken oracle.sampledToken).1,
                (decoded.takeToken oracle.sampledToken).2) := by
            simp [completionLoop, outcome]
          have model : decoded.model = s.model := by rw [state]
          have whole := decodedPieces_of_passed (congrArg Prod.fst outcome)
          cases eog : s.model.isEog oracle.sampledToken with
          | true =>
              left
              obtain ⟨marker, ended⟩ := takeToken_eog (model ▸ eog)
              refine ⟨rfl, whole, _, by rw [returns, marker], ?_⟩
              subst state
              exact ⟨⟨⟨ended.model, ended.cparams, ended.chatTemplate, ended.storeChats⟩,
                ended.prevLen⟩, ended.messages, ended.response, ended.cache⟩
          | false =>
              right
              have sampled := takeToken_piece (model ▸ eog)
              rw [model] at sampled
              refine ⟨rfl, whole, _, _, returns, ?_⟩
              subst state
              exact ⟨⟨⟨sampled.model, sampled.cparams, sampled.chatTemplate,
                sampled.storeChats⟩, sampled.prevLen⟩, sampled.messages, sampled.response,
                sampled.conserved, sampled.flushed, sampled.cache, sampled.settled,
                sampled.pending⟩

theorem completionLoop_frame (oracle : LoopOracle) (s : LLMInference) :
    LoopFrame s (s.completionLoop oracle).2 := by
  rcases completionLoop_cases oracle s with
    ⟨_, _, call, threw⟩ | ⟨_, _, _, call, ended⟩ | ⟨_, _, _, _, call, sampled⟩
  · rw [call]
    exact threw.toLoopFrame
  · rw [call]
    exact ended.toLoopFrame
  · rw [call]
    exact sampled.toLoopFrame

/-! ## What the loop changes -/

theorem cstr_marker : cstr (lit "[EOG]") = lit "[EOG]" := by decide

/-- The text pending before a piece that reads `[EOG]` with it is not an
unfinished character: it would be invalid in itself. -/
theorem Settled.nil_of_marker {s : LLMInference} (settled : s.Settled) {piece : Bytes}
    (marker : cstr (s.cacheResponseTokens ++ piece) = lit "[EOG]") :
    s.cacheResponseTokens = [] := by
  rcases settled with empty | invalid
  · exact empty
  · have visible : cstr s.cacheResponseTokens <+: lit "[EOG]" := by
      rw [← marker]
      exact cstr_le_append s.cacheResponseTokens piece
    have valid : isValidUtf8 s.cacheResponseTokens = true := by
      have ascii : ∀ b ∈ lit "[EOG]", b < 0x80 := by decide +kernel
      rw [← isValidUtf8_cstr]
      apply isValidUtf8_of_ascii
      intro b member
      exact ascii b (visible.subset member)
    rw [valid] at invalid
    cases invalid

/-- What the loop did to the session, by the way it was left. -/
structure LoopLaw (s : LLMInference) (r : LoopResult) : Prop extends LoopFrame s r.state where
  conserved : s.cacheResponseTokens ++ r.pieces.flatten =
    r.chunks.flatten ++ r.closing ++ r.state.cacheResponseTokens
  residue : r.state.cacheResponseTokens = residue s.cacheResponseTokens r.pieces
  settled : s.Settled → r.state.Settled
  ended : r.exit = .endOfGeneration →
    r.closing = [] ∧ r.state.response = [] ∧
    r.state.messages = s.messages ++
      [{ role := roleAssistant, content := CString.ofBytes (s.response ++ r.chunks.flatten) }] ∧
    r.decoded = s.pendingPieces ++ r.pieces
  notEnded : r.exit ≠ .endOfGeneration →
    r.state.response = s.response ++ r.chunks.flatten ++ r.closing ∧
    r.state.messages = s.messages
  inBand : r.exit = .inBand →
    cstr r.closing = lit "[EOG]" ∧ r.state.cacheResponseTokens = [] ∧
    (s.Settled → r.decoded.flatten ++ r.closing = s.pendingPieces.flatten ++ r.pieces.flatten)
  notInBand : r.exit ≠ .inBand → r.closing = []

theorem Sampled.loopLaw {s t : LLMInference} {piece text : Bytes}
    (sampled : Sampled s t piece text) {later : LoopResult} (law : LoopLaw t later) :
    LoopLaw s { later with
      chunks := text :: later.chunks
      pieces := [piece] ++ later.pieces
      decoded := s.pendingPieces ++ later.decoded } where
  toLoopFrame := sampled.toLoopFrame.trans law.toLoopFrame
  conserved := by
    have rest := law.conserved
    simp only [List.flatten_append, List.flatten_cons, List.flatten_nil, List.append_nil]
    rw [← List.append_assoc, sampled.conserved, List.append_assoc, rest]
    simp only [List.append_assoc]
  residue := by
    rw [law.residue, sampled.cache]
    rfl
  settled := fun _ => law.settled sampled.settled
  ended := by
    intro eog
    obtain ⟨closing, response, messages, decoded⟩ := law.ended eog
    refine ⟨closing, response, ?_, ?_⟩
    · simp only [messages, sampled.messages, sampled.response, List.flatten_cons,
        List.append_assoc]
    · simp only [decoded, sampled.pending]
  notEnded := by
    intro other
    obtain ⟨response, messages⟩ := law.notEnded other
    refine ⟨?_, messages.trans sampled.messages⟩
    simp only [response, sampled.response, List.flatten_cons, List.append_assoc]
  inBand := by
    intro marker
    obtain ⟨closing, cache, decoded⟩ := law.inBand marker
    refine ⟨closing, cache, fun _ => ?_⟩
    have rest := decoded sampled.settled
    simp only [sampled.pending, List.flatten_cons, List.flatten_nil, List.append_nil] at rest
    simp only [List.flatten_append, List.append_assoc, List.flatten_cons, List.flatten_nil,
      List.append_nil, rest]
  notInBand := law.notInBand

theorem responseLoop_law : ∀ (oracles : List LoopOracle) (s : LLMInference),
    LoopLaw s (s.responseLoop oracles) := by
  intro oracles
  -- induction on the answers of the environment
  induction oracles with
  | nil =>
      intro s
      exact ⟨LoopFrame.refl s, by simp [responseLoop], rfl, fun settled => settled,
        by simp [responseLoop], by simp [responseLoop], by simp [responseLoop],
        fun _ => rfl⟩
  | cons oracle rest ih =>
      intro s
      rcases completionLoop_cases oracle s with
        ⟨failure, after, call, threw⟩ | ⟨eog, whole, after, call, ended⟩ |
          ⟨notEog, whole, text, after, call, sampled⟩
      · simp only [responseLoop, call]
        exact ⟨threw.toLoopFrame, by simp [threw.cache], threw.cache,
          by simp [Settled, threw.cache],
          by simp, by simp [threw.response, threw.messages], by simp, fun _ => rfl⟩
      · simp only [responseLoop, call, eog, whole, cstr_marker, if_true]
        exact ⟨ended.toLoopFrame, by simp [ended.cache], ended.cache,
          by simp [Settled, ended.cache],
          by simp [ended.response, ended.messages], by simp, by simp, fun _ => rfl⟩
      · by_cases marker : cstr text = lit "[EOG]"
        · simp only [responseLoop, call, notEog, whole, marker, Bool.false_eq_true, if_true,
            if_false]
          have shown : text ≠ [] := by
            rintro rfl
            exact absurd marker (by decide)
          have flushed := sampled.flushed shown
          have conserved := sampled.conserved
          rw [flushed, List.append_nil] at conserved
          refine ⟨sampled.toLoopFrame, by simp [flushed, conserved], sampled.cache,
            fun _ => sampled.settled, by simp, by simp [sampled.response, sampled.messages], ?_,
            by simp⟩
          intro _
          refine ⟨marker, flushed, fun settled => ?_⟩
          have empty := settled.nil_of_marker (by rw [conserved, marker])
          rw [empty, List.nil_append] at conserved
          simp [conserved]
        · simp only [responseLoop, call, notEog, whole, marker, Bool.false_eq_true, if_false]
          exact sampled.loopLaw (ih after)

end LLMInference

end MineGPT.Native
