import MineGPT.Kv.Erase
import MineGPT.Native.Jni
import MineGPT.Native.Withheld

/-!
# What a throw leaves behind

An exception undoes nothing: `startCompletion` has stored the message when it
throws, `stopCompletion` has stored the error code as the offset.
`completionLoop` throws before it changes the conversation, and a decode that
fails has restored the cache, except the one of a recurrent model: there a failed
computation erases the cell.
-/

set_option autoImplicit false

namespace MineGPT.Native

open MineGPT.Lib MineGPT.Lib.ByteString MineGPT.Chat MineGPT.Kv LLMInference
open MineGPT.Lib.Machine (Visits StepsMeet)

def Throws {α : Type} : Except Failure α → Prop
  | .ok _ => False
  | .error failure => failure.Thrown

def NativeCall.Throws (s : LLMInference) : NativeCall → Prop
  | .addChatMessage _ _ => False
  | .startCompletion query => Native.Throws (s.startCompletion query).1
  | .completionLoop oracle => Native.Throws (s.completionLoop oracle).1
  | .stopCompletion => Native.Throws s.stopCompletion.1

structure SameConversation (s t : LLMInference) : Prop where
  messages : t.messages = s.messages
  prevLen : t.prevLen = s.prevLen
  response : t.response = s.response
  cache : t.cacheResponseTokens = s.cacheResponseTokens
  kv : t.ctx.kv = s.ctx.kv

def ThrowsHarmlessly (s : LLMInference) (call : NativeCall) : Prop :=
  call.Throws s → SameConversation s (call.run s)

def OffsetCounts (s : LLMInference) : Prop := 0 ≤ s.prevLen

/-- The call passes the context check with a recurrent model, and a computation of its
decode fails while there is a cell to erase. -/
def ErasesCache (oracle : LoopOracle) (s : LLMInference) : Prop :=
  s.model.recurrent = true ∧ s.contextCheck ∧
    Erases s.model.toDecodeModel s.ctx.cparams oracle.toDecodeOracle s.ctx.kv s.batchTokens

def NothingToLose (s : LLMInference) : NativeCall → Prop
  | .addChatMessage _ _ => True
  | .startCompletion query => s.Promptable query
  | .completionLoop oracle => ¬ ErasesCache oracle s
  | .stopCompletion => s.OwnTemplateSupported

/-! ## The cache -/

/-- The attention is the model's, the cache of a causal transformer is a log, and the
one of a recurrent model has one cell. -/
structure Restorable (s : LLMInference) : Prop where
  attention : s.ctx.cparams.causalAttn = s.model.causalAttn
  nUbatch_pos : 0 < s.ctx.cparams.nUbatch
  log : s.model.recurrent = false → s.model.causalAttn = true → LogSession s
  cell : s.model.recurrent = true → Tracked s.ctx.kv

theorem completionLoop_kv_of_not_check {s : LLMInference} (refused : ¬ s.contextCheck)
    (oracle : LoopOracle) : (s.completionLoop oracle).2.ctx.kv = s.ctx.kv := by
  simp [LLMInference.completionLoop, decodeBatch_of_not_check refused]

theorem tracked_completionLoop {s : LLMInference} (recurrent : s.model.recurrent = true)
    (positive : 0 < s.ctx.cparams.nUbatch) (tracked : Tracked s.ctx.kv) (oracle : LoopOracle) :
    Tracked (s.completionLoop oracle).2.ctx.kv := by
  by_cases check : s.contextCheck
  · rw [completionLoop_kv check]
    have recurrent : s.model.toDecodeModel.recurrent = true := recurrent
    exact tracked.decode recurrent positive oracle.toDecodeOracle s.batchTokens
  · rw [completionLoop_kv_of_not_check check]
    exact tracked

theorem Restorable.run {s : LLMInference} (session : Restorable s) (call : NativeCall) :
    Restorable (call.run s) := by
  have setup : SameSetup s (call.run s) := by
    cases call with
    | addChatMessage message role => exact ⟨rfl, rfl, rfl, rfl⟩
    | startCompletion query => exact (startCompletion_frame query s).toSameSetup
    | completionLoop oracle => exact (completionLoop_frame oracle s).toSameSetup
    | stopCompletion => exact (stopCompletion_frame s).toSameSetup
  refine ⟨?_, ?_, fun transformer causal => ?_, fun recurrent => ?_⟩
  · rw [setup.cparams, setup.model]
    exact session.attention
  · rw [setup.cparams]
    exact session.nUbatch_pos
  · rw [setup.model] at transformer causal
    exact (session.log transformer causal).run call
  · rw [setup.model] at recurrent
    have tracked := session.cell recurrent
    cases call with
    | addChatMessage message role => exact tracked
    | startCompletion query =>
        rw [NativeCall.run, (startCompletion_frame query s).ctx]
        exact tracked
    | completionLoop oracle =>
        exact tracked_completionLoop recurrent session.nUbatch_pos tracked oracle
    | stopCompletion =>
        rw [NativeCall.run, (stopCompletion_frame s).ctx]
        exact tracked

theorem restorable_opened {oracle : LoadOracle} {arguments : LoadArguments}
    {initial : List LlamaChatMessage} {s : LLMInference}
    (opened : openSession oracle arguments initial = .ok s) : Restorable s := by
  obtain ⟨model, rfl⟩ := openSession_eq_ok opened
  have positive : 0 < min (contextNBatch model.causalAttn model.nCtxTrain
      (paramNCtx arguments.contextSize)) defaultNUbatch := by
    simp [contextNBatch, ggmlKqMaskPad, defaultNUbatch]
  refine ⟨rfl, positive, fun transformer causal => ?_, fun recurrent => ?_⟩
  · refine FreshContext.logSession ⟨?_, rfl⟩ transformer causal positive
    have transformer : model.recurrent = false := transformer
    simp [loaded, llamaContext, transformer]
  · have recurrent : model.recurrent = true := recurrent
    have cell : (llamaContext model (paramNCtx arguments.contextSize)).kv = KvCache.init 1 := by
      simp [llamaContext, recurrent]
    show Tracked (llamaContext model (paramNCtx arguments.contextSize)).kv
    rw [cell]
    exact tracked_init

theorem Restorable.restores {s : LLMInference} (session : Restorable s) (check : s.contextCheck)
    {oracle : LoopOracle} (keeps : ¬ ErasesCache oracle s)
    (failed : (s.llamaDecode oracle.toDecodeOracle).outcome ≠ .returned 0) :
    (s.llamaDecode oracle.toDecodeOracle).kv = s.ctx.kv := by
  cases recurrent : s.model.recurrent with
  | true =>
      have kind : s.model.toDecodeModel.recurrent = true := recurrent
      exact kept_of_not_erases kind session.nUbatch_pos (session.cell recurrent)
        (fun erases => keeps ⟨recurrent, check, erases⟩) failed
  | false =>
      cases attention : s.model.causalAttn with
      | true =>
          exact ((session.log recurrent attention).wholeOrNothing check _).nothing failed
      | false =>
          exact decode_encoder_restores recurrent attention (session.attention.trans attention)
            oracle.toDecodeOracle s.ctx.kv s.batchTokens failed

/-! ## The three operations -/

theorem throws_iff_escapes {α : Type} (result : Except Failure α) :
    Throws result ↔ ∃ failure, jniReturn false result = .escaped failure := by
  cases result with
  | ok value => simp [Throws, jniReturn]
  | error failure => cases failure <;> simp [Throws, Failure.Thrown, jniReturn, jniThrow]

theorem startCompletion_throws_iff {s : LLMInference} (counts : OffsetCounts s)
    (query : CString) : Throws (s.startCompletion query).1 ↔ ¬ s.Promptable query := by
  rw [throws_iff_escapes, ← startCompletion_escapes_iff counts query]
  simp

theorem stopCompletion_throws_iff (s : LLMInference) :
    Throws s.stopCompletion.1 ↔ ¬ s.OwnTemplateSupported := by
  rw [throws_iff_escapes, ← stopCompletion_escapes_iff s]
  simp

/-- The message is stored before anything can throw. -/
theorem startCompletion_harmless_iff {s : LLMInference} (counts : OffsetCounts s)
    (query : CString) :
    ThrowsHarmlessly s (.startCompletion query) ↔ s.Promptable query := by
  have throws := startCompletion_throws_iff counts query
  constructor
  · intro harmless
    by_contra stuck
    have same := (harmless (throws.mpr stuck)).messages
    have stored := (startCompletion_frame query s).messages
    rw [NativeCall.run, stored] at same
    simp at same
  · intro promptable threw
    exact absurd promptable (throws.mp threw)

theorem startCompletion_counts {s : LLMInference} (counts : OffsetCounts s) (query : CString) :
    OffsetCounts (s.startCompletion query).2 := by
  unfold OffsetCounts at counts ⊢
  rw [(startCompletion_frame query s).prevLen]
  split
  · exact counts
  · exact Int.le_refl 0

theorem stopCompletion_counts_iff (s : LLMInference) :
    OffsetCounts s.stopCompletion.2 ↔ s.OwnTemplateSupported := by
  rw [← not_iff_not, ← stopCompletion_throws_iff, stopCompletion_result, OffsetCounts]
  split
  · rename_i negative
    exact iff_of_true (Int.not_le.mpr negative) trivial
  · rename_i notNegative
    exact iff_of_false (not_not.mpr (Int.not_lt.mp notNegative)) id

theorem completionLoop_throws_iff (oracle : LoopOracle) (s : LLMInference) :
    Throws (s.completionLoop oracle).1 ↔ ¬ s.contextCheck ∨
      Throws (decodeVerdict (s.llamaDecode oracle.toDecodeOracle).outcome) := by
  by_cases check : s.contextCheck
  · simp only [LLMInference.completionLoop, decodeBatch_of_check check, check, not_true,
      false_or]
    cases decodeVerdict (s.llamaDecode oracle.toDecodeOracle).outcome with
    | ok done => simp [Throws]
    | error failure => rfl
  · simp [LLMInference.completionLoop, decodeBatch_of_not_check check, check, Throws,
      Failure.Thrown]

theorem completionLoop_throws_frame {oracle : LoopOracle} {s : LLMInference}
    (threw : Throws (s.completionLoop oracle).1) : Threw s (s.completionLoop oracle).2 := by
  rcases completionLoop_cases oracle s with
    ⟨failure, after, call, frame⟩ | ⟨_, _, after, call, _⟩ | ⟨_, _, text, after, call, _⟩
  · rw [call]
    exact frame
  · rw [call] at threw
    exact threw.elim
  · rw [call] at threw
    exact threw.elim

theorem not_done_of_throws {outcome : DecodeOutcome} (threw : Throws (decodeVerdict outcome)) :
    outcome ≠ .returned 0 := by
  rintro rfl
  exact threw

theorem Restorable.erased {s : LLMInference} (session : Restorable s) {oracle : LoopOracle}
    (erases : ErasesCache oracle s) :
    Throws (decodeVerdict (s.llamaDecode oracle.toDecodeOracle).outcome) ∧
      (s.llamaDecode oracle.toDecodeOracle).kv ≠ s.ctx.kv := by
  obtain ⟨recurrent, _, erases⟩ := erases
  have kind : s.model.toDecodeModel.recurrent = true := recurrent
  obtain ⟨⟨i, failed, outcome⟩, changed⟩ :=
    erases.changed kind session.nUbatch_pos (session.cell recurrent)
  refine ⟨?_, changed⟩
  have ran := oracle.neverAborted i
  rw [llamaDecode, outcome]
  cases status : oracle.computeStatus i with
  | success => exact absurd status failed
  | aborted => exact absurd status ran
  | allocFailed | failed => simp [statusCode, decodeVerdict, Throws, Failure.Thrown]

theorem completionLoop_harmless_iff {s : LLMInference} (session : Restorable s)
    (oracle : LoopOracle) :
    ThrowsHarmlessly s (.completionLoop oracle) ↔ ¬ ErasesCache oracle s := by
  have throws := completionLoop_throws_iff oracle s
  constructor
  · intro harmless erases
    obtain ⟨threw, changed⟩ := session.erased erases
    have same := (harmless (throws.mpr (Or.inr threw))).kv
    rw [NativeCall.run, completionLoop_kv erases.2.1] at same
    exact changed same
  · intro keeps threw
    have frame := completionLoop_throws_frame threw
    refine ⟨frame.messages, frame.prevLen, frame.response, frame.cache, ?_⟩
    show (s.completionLoop oracle).2.ctx.kv = s.ctx.kv
    by_cases check : s.contextCheck
    · have failed := (throws.mp threw).resolve_left (not_not.mpr check)
      rw [completionLoop_kv check]
      exact session.restores check keeps (not_done_of_throws failed)
    · exact completionLoop_kv_of_not_check check oracle

theorem harmless_step_iff {s next : LLMInference} {call : NativeCall} (session : Restorable s)
    (counts : OffsetCounts s) (taken : nativeStep s call = some next) :
    ThrowsHarmlessly s call ∧ OffsetCounts next ↔ NothingToLose s call := by
  obtain rfl := Option.some.inj taken
  cases call with
  | addChatMessage message role => exact iff_of_true ⟨False.elim, counts⟩ trivial
  | startCompletion query =>
      rw [startCompletion_harmless_iff counts query]
      exact and_iff_left (startCompletion_counts counts query)
  | completionLoop oracle =>
      rw [completionLoop_harmless_iff session oracle]
      have kept : OffsetCounts (s.completionLoop oracle).2 := by
        unfold OffsetCounts
        rw [(completionLoop_frame oracle s).prevLen]
        exact counts
      exact and_iff_left kept
  | stopCompletion =>
      refine (and_congr_right fun _ => stopCompletion_counts_iff s).trans ?_
      refine ⟨fun both => both.2, fun supported => ⟨fun threw => ?_, supported⟩⟩
      exact absurd supported ((stopCompletion_throws_iff s).mp threw)

/-- In a run of native calls every throw leaves the conversation as it was, and the
offset is never negative, exactly when nothing is called that has something to
lose. -/
theorem throwsHarmlessly_iff {oracle : LoadOracle} {arguments : LoadArguments}
    {initial : List LlamaChatMessage} {s : LLMInference}
    (opened : openSession oracle arguments initial = .ok s) (calls : List NativeCall) :
    StepsMeet nativeStep ThrowsHarmlessly s calls ∧ Visits nativeStep OffsetCounts s calls ↔
      StepsMeet nativeStep NothingToLose s calls := by
  have start : OffsetCounts s := (openSession_fresh opened).prevLen.ge
  refine Machine.meets_and_visits_iff_stepsMeet ?_ ?_ (restorable_opened opened) start
  · intro s call next session taken
    obtain rfl := Option.some.inj taken
    exact session.run call
  · intro s call next session counts taken
    exact harmless_step_iff session counts taken

theorem throwsHarmlessly_iff_small :
    StepsMeet nativeStep ThrowsHarmlessly (smallSession [] true)
          [.startCompletion (turnOf []).query, .completionLoop (answer 2), .stopCompletion] ∧
        Visits nativeStep OffsetCounts (smallSession [] true)
          [.startCompletion (turnOf []).query, .completionLoop (answer 2), .stopCompletion] ↔
      StepsMeet nativeStep NothingToLose (smallSession [] true)
        [.startCompletion (turnOf []).query, .completionLoop (answer 2), .stopCompletion] :=
  throwsHarmlessly_iff (smallSession_opened [] true) _

/-- A model with a template of its own that llama.cpp does not know, and a session
that is given the same name. -/
def foreignModel : LlamaModel := { smallModel [] with chatTemplate := some foreignName }

def foreignSession (arguments : LoadArguments) : LLMInference :=
  loaded foreignModel (llamaContext foreignModel (paramNCtx 32)) arguments

/-- The message is stored by the `startCompletion` that throws, and the offset of
the next one is the error code of the `stopCompletion` that threw. -/
theorem not_throwsHarmlessly_foreign :
    openSession { model := some foreignModel, contextAllocated := true } foreignArguments [] =
        .ok (foreignSession foreignArguments) ∧
      ((foreignSession foreignArguments).startCompletion (turnOf []).query).2.messages.length = 1 ∧
      (foreignSession (smallArguments true)).stopCompletion.2.prevLen = -1 ∧
      ¬ StepsMeet nativeStep ThrowsHarmlessly (foreignSession foreignArguments)
        [.startCompletion (turnOf []).query] := by
  have stored :
      ((foreignSession foreignArguments).startCompletion (turnOf []).query).2.messages.length = 1 := by
    decide +kernel
  refine ⟨openSession_eq (fun unsized => absurd unsized.1 (by decide : paramNCtx 32 ≠ 0)) [],
    stored, by decide +kernel, fun meets => ?_⟩
  have unknown : llmChatDetectTemplate (foreignSession foreignArguments).chatTemplate.bytes =
      .unknown := by decide +kernel
  have threw : NativeCall.Throws (foreignSession foreignArguments)
      (.startCompletion (turnOf []).query) := by
    rw [NativeCall.Throws, startCompletion_unknown unknown]
    trivial
  have same := ((meets _ rfl).1 threw).messages
  rw [NativeCall.run] at same
  rw [same] at stored
  cases stored

end MineGPT.Native
