import MineGPT.Lib.ByteString
import MineGPT.Kv.Decode

/-!
# Models and contexts

What MineGPT asks of a loaded model, and the part of the `llama_context`
constructor that fixes the sizes: `n_batch` comes from the context size as
requested, `n_ctx` is rounded up afterwards.
-/

set_option autoImplicit false

namespace MineGPT.Native

open MineGPT.Lib.ByteString MineGPT.Kv

inductive Failure where
  | runtimeError (what : String)
  /-- An iterator range that leaves the vector or ends before it starts. -/
  | badRange
  /-- A `std::out_of_range`: a key that a map does not have. -/
  | outOfRange
  /-- A `GGML_ASSERT` that aborts the process. -/
  | ggmlAssert
  | diverges
  deriving DecidableEq, Repr

/-- The failures that are C++ exceptions. -/
def Failure.Thrown : Failure → Prop
  | .runtimeError _ => True
  | .badRange => True
  | .outOfRange => True
  | .ggmlAssert => False
  | .diverges => False

/-- A loaded model.  The tokenizer is a parameter: `commonTokenize` is
`common_tokenize(vocab, text, true, true)`, which throws on a byte that has no token
and on a text whose expressions cannot be processed, `commonTokenToPiece` is
`common_token_to_piece(ctx, token, true)`. -/
structure LlamaModel where
  nTokens : Nat
  commonTokenize : Bytes → Except Failure (List Int)
  commonTokenToPiece : Int → Bytes
  isEog : Int → Bool
  /-- `llama_model_chat_template(model, nullptr)` -/
  chatTemplate : Option CString
  nCtxTrain : Nat
  causalAttn : Bool
  recurrent : Bool

def LlamaModel.toDecodeModel (model : LlamaModel) : DecodeModel :=
  { nTokens := model.nTokens, causalAttn := model.causalAttn, recurrent := model.recurrent }

structure LlamaContext where
  cparams : CParams
  kv : KvCache

def defaultNBatch : Nat := 2048

def defaultNUbatch : Nat := 512

def ggmlKqMaskPad : Nat := 64

/-- `params.n_ctx == 0 ? hparams.n_ctx_train : params.n_ctx` -/
def requestedNCtx (nCtxTrain nCtx : Nat) : Nat := if nCtx = 0 then nCtxTrain else nCtx

def contextNBatch (causalAttn : Bool) (nCtxTrain nCtx : Nat) : Nat :=
  max ggmlKqMaskPad
    (if causalAttn then min (requestedNCtx nCtxTrain nCtx) defaultNBatch else defaultNBatch)

/-- The sizes the `llama_context` constructor settles on.  It rounds `n_ctx` up
only after `n_batch` was derived from it. -/
def contextParams (causalAttn : Bool) (nCtxTrain nCtx : Nat) : CParams :=
  { nCtx := ggmlPad (requestedNCtx nCtxTrain nCtx) getPadding
    nBatch := contextNBatch causalAttn nCtxTrain nCtx
    nUbatch := min (contextNBatch causalAttn nCtxTrain nCtx) defaultNUbatch
    causalAttn := causalAttn }

/-- The context the constructor creates.  A recurrent model has one cell, as
`n_seq_max` is 1. -/
def llamaContext (model : LlamaModel) (nCtx : Nat) : LlamaContext :=
  let cparams := contextParams model.causalAttn model.nCtxTrain nCtx
  let kvSize := if model.recurrent then 1 else cparams.nCtx
  { cparams := cparams, kv := KvCache.init kvSize }

/-- `llama_init_from_model` with MineGPT's parameters: `n_ctx` is the only one
of those modelled that differs from its default. -/
def llamaInitFromModel (model : LlamaModel) (nCtx : Nat) : Option LlamaContext :=
  if nCtx = 0 ∧ model.nCtxTrain = 0 then none else some (llamaContext model nCtx)

end MineGPT.Native
