import MineGPT.Kv.Rollback
import MineGPT.Native.Run

/-!
# What the context check admits

`completionLoop` compares the used cells and the batch with `n_ctx`.  On a
transformer with causal attention the cache is a log (`Kv.Linear`) in every
state the calls can reach, so a batch that passes has a slot for each of its
micro-batches, and a decode takes it whole or leaves the cache as it was.
-/

set_option autoImplicit false

namespace MineGPT.Native

open MineGPT.Lib.ByteString MineGPT.Chat MineGPT.Kv LLMInference

inductive NativeCall where
  | addChatMessage (message role : CString)
  | startCompletion (query : CString)
  | completionLoop (oracle : LoopOracle)
  | stopCompletion

def NativeCall.run (s : LLMInference) : NativeCall → LLMInference
  | .addChatMessage message role => s.addChatMessage message role
  | .startCompletion query => (s.startCompletion query).2
  | .completionLoop oracle => (s.completionLoop oracle).2
  | .stopCompletion => s.stopCompletion.2

/-- The context was just created; nothing was decoded or sampled. -/
structure FreshContext (s : LLMInference) : Prop where
  kv : s.ctx.kv = KvCache.init s.ctx.cparams.nCtx
  batch : s.batch = { token := .null, nTokens := 0 }

def LLMInference.contextCheck (s : LLMInference) : Prop :=
  s.ctx.kv.used + s.batch.nTokens ≤ s.ctx.cparams.nCtx

/-- A batch that passes the check is taken whole or not at all: the decode does
not diverge, every slot search ends with the free cells behind the tokens held
and writes positions equal to cell indices there, the used count grows by the
batch on success, and the cache is unchanged on failure. -/
structure AdmissionSound (oracle : DecodeOracle) (s : LLMInference) : Prop where
  ends : (s.llamaDecode oracle).outcome ≠ .diverged
  sound : ∀ call ∈ (s.llamaDecode oracle).slotCalls, call.Sound
  grows : (s.llamaDecode oracle).outcome = .returned 0 →
    (s.llamaDecode oracle).kv.used = s.ctx.kv.used + s.batch.nTokens
  restores : (s.llamaDecode oracle).outcome ≠ .returned 0 →
    (s.llamaDecode oracle).kv = s.ctx.kv

/-! ## The invariant -/

def BatchFits (s : LLMInference) : Prop := s.batchTokens.length = s.batch.nTokens

structure LogSession (s : LLMInference) : Prop where
  transformer : s.model.recurrent = false
  causal : s.model.causalAttn = true
  nUbatch_pos : 0 < s.ctx.cparams.nUbatch
  linear : Linear s.ctx.kv
  size : s.ctx.kv.size = s.ctx.cparams.nCtx
  batch : BatchFits s

theorem LogSession.wholeOrNothing {s : LLMInference} (session : LogSession s)
    (check : s.contextCheck) (oracle : DecodeOracle) :
    (s.llamaDecode oracle).WholeOrNothing s.ctx.kv (s.ctx.kv.used + s.batch.nTokens) := by
  have fits := session.batch
  rw [BatchFits] at fits
  rw [← fits]
  refine decode_wholeOrNothing session.transformer session.causal session.nUbatch_pos oracle
    session.linear ?_
  rw [fits, session.size]
  exact check

theorem LogSession.admissionSound {s : LLMInference} (session : LogSession s)
    (check : s.contextCheck) (oracle : DecodeOracle) : AdmissionSound oracle s := by
  have result := session.wholeOrNothing check oracle
  exact ⟨decode_ends session.nUbatch_pos _ oracle _ _, result.sound,
    fun done => (result.whole done).2.2, result.nothing⟩

/-! ## The calls keep the invariant -/

theorem LogSession.sameContext {s t : LLMInference} (session : LogSession s)
    (model : t.model = s.model) (ctx : t.ctx = s.ctx) (batch : BatchFits t) : LogSession t where
  transformer := by rw [model]; exact session.transformer
  causal := by rw [model]; exact session.causal
  nUbatch_pos := by rw [ctx]; exact session.nUbatch_pos
  linear := by rw [ctx]; exact session.linear
  size := by rw [ctx]; exact session.size
  batch := batch

theorem decodeBatch_of_check {oracle : DecodeOracle} {s : LLMInference}
    (check : s.contextCheck) :
    s.decodeBatch oracle = (decodeVerdict (s.llamaDecode oracle).outcome,
      { s with
        nCtxUsed := s.ctx.kv.used
        ctx := { s.ctx with kv := (s.llamaDecode oracle).kv } }) :=
  if_neg (Nat.not_lt.mpr check)

theorem decodeBatch_of_not_check {oracle : DecodeOracle} {s : LLMInference}
    (refused : ¬ s.contextCheck) :
    s.decodeBatch oracle = (.error (.runtimeError "context size reached"),
      { s with nCtxUsed := s.ctx.kv.used }) :=
  if_pos (Nat.lt_of_not_le refused)

theorem LogSession.decodeBatch {s : LLMInference} (session : LogSession s)
    (oracle : DecodeOracle) : LogSession (s.decodeBatch oracle).2 := by
  by_cases check : s.contextCheck
  case neg =>
    rw [decodeBatch_of_not_check check]
    exact session.sameContext rfl rfl session.batch
  case pos =>
    rw [decodeBatch_of_check check]
    have result := session.wholeOrNothing check oracle
    have kept : Linear (s.llamaDecode oracle).kv ∧
        (s.llamaDecode oracle).kv.size = s.ctx.cparams.nCtx := by
      by_cases done : (s.llamaDecode oracle).outcome = .returned 0
      · obtain ⟨linear, size, _⟩ := result.whole done
        exact ⟨linear, size.trans session.size⟩
      · rw [result.nothing done]
        exact ⟨session.linear, session.size⟩
    exact ⟨session.transformer, session.causal, session.nUbatch_pos, kept.1, kept.2,
      session.batch⟩

theorem LogSession.takeToken {s : LLMInference} (session : LogSession s) (token : Int) :
    LogSession (s.takeToken token).2 := by
  simp only [LLMInference.takeToken]
  split
  · refine session.sameContext rfl rfl ?_
    have fits := session.batch
    cases pointer : s.batch.token <;>
      simpa [BatchFits, batchTokens, pointer, LLMInference.addChatMessage] using fits
  · split <;> exact session.sameContext rfl rfl rfl

theorem LogSession.completionLoop {s : LLMInference} (session : LogSession s)
    (oracle : LoopOracle) : LogSession (s.completionLoop oracle).2 := by
  have decoded := session.decodeBatch oracle.toDecodeOracle
  simp only [LLMInference.completionLoop]
  generalize s.decodeBatch oracle.toDecodeOracle = outcome at decoded ⊢
  cases outcome with
  | mk result after =>
      cases result with
      | error failure => exact decoded
      | ok passed => exact decoded.takeToken oracle.sampledToken

theorem startCompletion_batch (query : CString) (s : LLMInference) :
    let t := (s.startCompletion query).2
    (t.batch = { token := .promptTokens, nTokens := t.promptTokens.length }) ∨
    (t.batch = s.batch ∧ t.promptTokens = s.promptTokens ∧ t.currToken = s.currToken) := by
  rcases startCompletion_outcome query s with
    ⟨_, t, threw, kept⟩ | ⟨_, t, returned, _, _, batch⟩
  · rw [threw]
    exact Or.inr kept
  · rw [returned]
    exact Or.inl batch

theorem LogSession.startCompletion {s : LLMInference} (session : LogSession s)
    (query : CString) : LogSession (s.startCompletion query).2 := by
  have frame := startCompletion_frame query s
  apply session.sameContext frame.model frame.ctx
  rcases startCompletion_batch query s with set | ⟨batch, promptTokens, currToken⟩
  · simp [BatchFits, batchTokens, set]
  · have fits := session.batch
    rw [BatchFits, batchTokens] at fits ⊢
    rw [batch, promptTokens, currToken]
    exact fits

theorem LogSession.run {s : LLMInference} (session : LogSession s) (call : NativeCall) :
    LogSession (call.run s) := by
  cases call with
  | addChatMessage message role => exact session.sameContext rfl rfl session.batch
  | startCompletion query => exact session.startCompletion query
  | completionLoop oracle => exact session.completionLoop oracle
  | stopCompletion =>
      have frame := stopCompletion_frame s
      apply session.sameContext frame.model frame.ctx
      rw [BatchFits, frame.batch, frame.batchTokens]
      exact session.batch

theorem LogSession.runs {s : LLMInference} (session : LogSession s) (calls : List NativeCall) :
    LogSession (calls.foldl (fun s call => call.run s) s) := by
  induction calls generalizing s with
  | nil => exact session
  | cons call rest ih => exact ih (session.run call)

theorem runs_cparams (calls : List NativeCall) (s : LLMInference) :
    (calls.foldl (fun s call => call.run s) s).ctx.cparams = s.ctx.cparams := by
  induction calls generalizing s with
  | nil => rfl
  | cons call rest ih =>
      rw [List.foldl_cons, ih]
      cases call with
      | addChatMessage message role => rfl
      | startCompletion query => exact (startCompletion_frame query s).cparams
      | completionLoop oracle => exact (completionLoop_frame oracle s).cparams
      | stopCompletion => exact (stopCompletion_frame s).cparams

theorem FreshContext.logSession {s : LLMInference} (fresh : FreshContext s)
    (transformer : s.model.recurrent = false) (causal : s.model.causalAttn = true)
    (nUbatch_pos : 0 < s.ctx.cparams.nUbatch) : LogSession s where
  transformer := transformer
  causal := causal
  nUbatch_pos := nUbatch_pos
  linear := by rw [fresh.kv]; exact linear_init _
  size := by rw [fresh.kv]; rfl
  batch := by simp [BatchFits, batchTokens, fresh.batch]

theorem completionLoop_kv {s : LLMInference} (check : s.contextCheck) (oracle : LoopOracle) :
    (s.completionLoop oracle).2.ctx.kv = (s.llamaDecode oracle.toDecodeOracle).kv := by
  have takeToken_ctx : ∀ (token : Int) (t : LLMInference), (t.takeToken token).2.ctx = t.ctx := by
    intro token t
    simp only [LLMInference.takeToken]
    split
    · rfl
    · split <;> rfl
  simp only [LLMInference.completionLoop, decodeBatch_of_check check]
  cases decodeVerdict (s.llamaDecode oracle.toDecodeOracle).outcome with
  | error failure => rfl
  | ok passed => simp only [takeToken_ctx]

/-- In every state the calls reach from a fresh context of a transformer with
causal attention, no more cells are used than the context has, and what the
context check of `completionLoop` admits is sound. -/
theorem admission_sound {s : LLMInference} (fresh : FreshContext s)
    (transformer : s.model.recurrent = false) (causal : s.model.causalAttn = true)
    (nUbatch_pos : 1 ≤ s.ctx.cparams.nUbatch) (calls : List NativeCall)
    (oracle : LoopOracle) :
    let reached := calls.foldl (fun s call => call.run s) s
    reached.ctx.kv.used ≤ s.ctx.cparams.nCtx ∧
      (reached.contextCheck → AdmissionSound oracle.toDecodeOracle reached ∧
        (reached.completionLoop oracle).2.ctx.kv =
          (reached.llamaDecode oracle.toDecodeOracle).kv) := by
  intro reached
  have session : LogSession reached :=
    (fresh.logSession transformer causal nUbatch_pos).runs calls
  have size : reached.ctx.kv.size = s.ctx.cparams.nCtx := by
    rw [session.size, runs_cparams]
  exact ⟨size ▸ session.linear.used_le, fun check =>
    ⟨session.admissionSound check oracle.toDecodeOracle, completionLoop_kv check oracle⟩⟩

theorem smallSession_freshContext (piece : Bytes) (storeChats : Bool) :
    FreshContext (smallSession piece storeChats) where
  kv := rfl
  batch := rfl

theorem admission_sound_hello :
    let reached := [NativeCall.startCompletion (turnOf []).query].foldl
      (fun s call => call.run s) (smallSession (lit "Hello") true)
    reached.ctx.kv.used ≤ (smallSession (lit "Hello") true).ctx.cparams.nCtx ∧
      (reached.contextCheck → AdmissionSound (answer 1).toDecodeOracle reached ∧
        (reached.completionLoop (answer 1)).2.ctx.kv =
          (reached.llamaDecode (answer 1).toDecodeOracle).kv) :=
  admission_sound (smallSession_freshContext (lit "Hello") true) rfl rfl (by decide)
    [.startCompletion (turnOf []).query] (answer 1)

def encoderModel : LlamaModel := { smallModel (lit "Hello") with causalAttn := false }

def encoderSession : LLMInference :=
  loaded encoderModel (llamaContext encoderModel 32) (smallArguments true)

/-- Its decode succeeds without a slot search and uses no cell. -/
theorem not_admissionSound_encoder :
    FreshContext encoderSession ∧ encoderSession.model.recurrent = false ∧
      1 ≤ encoderSession.ctx.cparams.nUbatch ∧
      let reached := NativeCall.run encoderSession (.startCompletion (turnOf []).query)
      reached.contextCheck ∧ ¬ AdmissionSound (answer 1).toDecodeOracle reached := by
  refine ⟨⟨rfl, rfl⟩, rfl, by decide, ?_, ?_⟩
  · rw [contextCheck]
    decide +kernel
  · intro sound
    have grown := sound.grows (by decide +kernel)
    revert grown
    decide +kernel

end MineGPT.Native
