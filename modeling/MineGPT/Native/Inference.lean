import MineGPT.Chat.Render
import MineGPT.Native.Context
import MineGPT.Native.Utf8Scan

/-!
# `LLMInference`

The native session object and its operations.  Each returns its result or the
failure it ends with, and in both cases the object as it is left behind: an
exception undoes nothing.  What comes from outside (whether the model file
loads, the outcome of each graph computation, the sampled token) is an oracle.

The generation-time counter is left out.  Text lengths and token counts stay
below 2^31, so `int` is `Int` here.
-/

set_option autoImplicit false

namespace MineGPT.Native

open MineGPT.Lib.ByteString MineGPT.Chat MineGPT.Kv

/-- What `llama_batch.token` points to. -/
inductive BatchToken where
  | null
  | promptTokens
  | currToken
  deriving DecidableEq, Repr

structure LlamaBatch where
  token : BatchToken
  nTokens : Nat
  deriving DecidableEq, Repr

structure LLMInference where
  model : LlamaModel
  ctx : LlamaContext
  currToken : Int
  batch : LlamaBatch
  messages : List LlamaChatMessage
  formattedMessages : Bytes
  promptTokens : List Int
  prevLen : Int
  chatTemplate : CString
  response : Bytes
  cacheResponseTokens : Bytes
  storeChats : Bool
  responseNumTokens : Nat
  nCtxUsed : Int

/-- The arguments of `loadModel` that are used later. -/
structure LoadArguments where
  storeChats : Bool
  contextSize : Int
  chatTemplate : CString

structure LoadOracle where
  model : Option LlamaModel
  /-- Whether the memory of the context could be allocated. -/
  contextAllocated : Bool

/-- `ctx_params.n_ctx = contextSize`, from `long` to `uint32_t`. -/
def paramNCtx (contextSize : Int) : Nat := (contextSize % 0x100000000).toNat

def loaded (model : LlamaModel) (ctx : LlamaContext) (arguments : LoadArguments) :
    LLMInference where
  model := model
  ctx := ctx
  currToken := 0
  batch := { token := .null, nTokens := 0 }
  messages := []
  formattedMessages := List.replicate ctx.cparams.nCtx 0
  promptTokens := []
  prevLen := 0
  chatTemplate := arguments.chatTemplate
  response := []
  cacheResponseTokens := []
  storeChats := arguments.storeChats
  responseNumTokens := 0
  nCtxUsed := 0

def loadModel (oracle : LoadOracle) (arguments : LoadArguments) :
    Except Failure LLMInference :=
  match oracle.model with
  | none => .error (.runtimeError "loadModel() failed")
  | some model =>
    match llamaInitFromModel model (paramNCtx arguments.contextSize) with
    | none => .error (.runtimeError "llama_new_context_with_model() returned null")
    | some ctx =>
      if oracle.contextAllocated then .ok (loaded model ctx arguments)
      else .error (.runtimeError "llama_new_context_with_model() returned null")

/-- What the environment answers during one `completionLoop`.  MineGPT installs
no abort callback, so no computation is aborted. -/
structure LoopOracle extends DecodeOracle where
  neverAborted : ∀ index, computeStatus index ≠ .aborted
  sampledToken : Int

namespace LLMInference

def addChatMessage (message : CString) (role : CString) (s : LLMInference) : LLMInference :=
  { s with messages := s.messages ++ [{ role := role, content := message }] }

def getContextSizeUsed (s : LLMInference) : Int := s.nCtxUsed

/-- `std::string prompt(begin + prevLen, begin + newLen)` -/
def promptRange (buffer : Bytes) (prevLen newLen : Int) : Except Failure Bytes :=
  if 0 ≤ prevLen ∧ prevLen ≤ newLen ∧ newLen ≤ buffer.length then
    .ok ((buffer.take newLen.toNat).drop prevLen.toNat)
  else .error .badRange

/-- Renders the messages with the generation prompt into `_formattedMessages`,
a second time when the buffer was too small for the first one. -/
def applyTemplate (s : LLMInference) : Int × LLMInference :=
  let (newLen, buffer) :=
    llamaChatApplyTemplate (some s.chatTemplate) s.messages true s.formattedMessages
  if (buffer.length : Int) < newLen then
    let resized := buffer ++ List.replicate (newLen.toNat - buffer.length) 0
    let (newLen, buffer) :=
      llamaChatApplyTemplate (some s.chatTemplate) s.messages true resized
    (newLen, { s with formattedMessages := buffer })
  else (newLen, { s with formattedMessages := buffer })

/-- `startCompletion` up to the prompt that it hands to the tokenizer. -/
def slicePrompt (query : CString) (s : LLMInference) : Except Failure Bytes × LLMInference :=
  let s :=
    if s.storeChats then s
    else { s with prevLen := 0, formattedMessages := List.replicate s.ctx.cparams.nCtx 0 }
  let s := { s with responseNumTokens := 0 }
  let s := s.addChatMessage query roleUser
  let (newLen, s) := s.applyTemplate
  if newLen < 0 then
    (.error (.runtimeError
      "llama_chat_apply_template() in LLMInference::startCompletion() failed"), s)
  else (promptRange s.formattedMessages s.prevLen newLen, s)

/-- `startCompletion`; the result is the prompt. -/
def startCompletion (query : CString) (s : LLMInference) :
    Except Failure Bytes × LLMInference :=
  match s.slicePrompt query with
  | (.error failure, s) => (.error failure, s)
  | (.ok prompt, s) =>
    match s.model.commonTokenize prompt with
    | .error failure => (.error failure, s)
    | .ok promptTokens =>
      (.ok prompt,
        { s with
          promptTokens := promptTokens
          batch := { token := .promptTokens, nTokens := promptTokens.length } })

def batchTokens (s : LLMInference) : List Int :=
  match s.batch.token with
  | .null => []
  | .promptTokens => s.promptTokens.take s.batch.nTokens
  | .currToken => [s.currToken]

def llamaDecode (oracle : DecodeOracle) (s : LLMInference) : DecodeResult :=
  decode s.model.toDecodeModel s.ctx.cparams oracle s.ctx.kv s.batchTokens

/-- What `completionLoop` makes of the end of `llama_decode`. -/
def decodeVerdict : DecodeOutcome → Except Failure Unit
  | .returned ret => if ret < 0 then .error (.runtimeError "llama_decode() failed") else .ok ()
  | .threw what => .error (.runtimeError what)
  | .assertFailed => .error .ggmlAssert
  | .diverged => .error .diverges

/-- The part of `completionLoop` before sampling: the context check and
`llama_decode`. -/
def decodeBatch (oracle : DecodeOracle) (s : LLMInference) :
    Except Failure Unit × LLMInference :=
  let contextSize := s.ctx.cparams.nCtx
  let used := s.ctx.kv.getUsedCells
  if contextSize < used + s.batch.nTokens then
    (.error (.runtimeError "context size reached"), { s with nCtxUsed := used })
  else
    let result := s.llamaDecode oracle
    (decodeVerdict result.outcome,
      { s with nCtxUsed := used, ctx := { s.ctx with kv := result.kv } })

def takeToken (sampledToken : Int) (s : LLMInference) : Bytes × LLMInference :=
  let s := { s with currToken := sampledToken }
  if s.model.isEog s.currToken then
    (lit "[EOG]",
      { s.addChatMessage (CString.ofBytes s.response) roleAssistant with response := [] })
  else
    let piece := s.model.commonTokenToPiece s.currToken
    let s := { s with
      responseNumTokens := s.responseNumTokens + 1
      cacheResponseTokens := s.cacheResponseTokens ++ piece
      batch := { token := .currToken, nTokens := 1 } }
    if isValidUtf8 s.cacheResponseTokens then
      (s.cacheResponseTokens,
        { s with response := s.response ++ s.cacheResponseTokens, cacheResponseTokens := [] })
    else ([], s)

def completionLoop (oracle : LoopOracle) (s : LLMInference) :
    Except Failure Bytes × LLMInference :=
  match s.decodeBatch oracle.toDecodeOracle with
  | (.error failure, s) => (.error failure, s)
  | (.ok (), s) =>
    let (text, s) := s.takeToken oracle.sampledToken
    (.ok text, s)

/-- `stopCompletion`; the length is taken with the model's own template. -/
def stopCompletion (s : LLMInference) : Except Failure Unit × LLMInference :=
  let s :=
    if s.storeChats then s.addChatMessage (CString.ofBytes s.response) roleAssistant else s
  let s := { s with response := [] }
  let prevLen := (llamaChatApplyTemplate s.model.chatTemplate s.messages false []).1
  let s := { s with prevLen := prevLen }
  if prevLen < 0 then
    (.error (.runtimeError
      "llama_chat_apply_template() in LLMInference::stopCompletion() failed"), s)
  else (.ok (), s)

end LLMInference

end MineGPT.Native
