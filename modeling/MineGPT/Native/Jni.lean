import MineGPT.Lib.Machine
import MineGPT.Native.Run

/-!
# The native methods of `LLMTalker`

The JNI functions around `LLMInference`.  `loadModel` and `completionLoop` turn
a `std::runtime_error` into a pending `IllegalStateException`; the others have no
handler, so what their operation throws goes through the `extern "C"` boundary
and ends the process.  `startCompletion` throws on an unsupported template, on an
offset behind the rendered text and on a prompt that the tokenizer throws on,
`stopCompletion` when the model's own template is unsupported.
-/

set_option autoImplicit false

namespace MineGPT.Native

open MineGPT.Lib.ByteString MineGPT.Lib.Machine MineGPT.Chat MineGPT.Kv LLMInference

inductive JniOutcome where
  | returned
  /-- The function returned; an `IllegalStateException` is pending. -/
  | pending (what : String)
  /-- A C++ exception left the function. -/
  | escaped (failure : Failure)
  | aborted
  | hangs
  deriving DecidableEq, Repr

/-- How a JNI function ends when its operation throws, with or without a handler
for `std::runtime_error`.  A bad range and a missing key are logic errors, which are
none. -/
def jniThrow (handler : Bool) : Failure → JniOutcome
  | .runtimeError what => if handler then .pending what else .escaped (.runtimeError what)
  | .badRange => .escaped .badRange
  | .outOfRange => .escaped .outOfRange
  | .ggmlAssert => .aborted
  | .diverges => .hangs

def jniReturn {α : Type} (handler : Bool) : Except Failure α → JniOutcome
  | .ok _ => .returned
  | .error failure => jniThrow handler failure

inductive JniCall where
  | loadModel (oracle : LoadOracle) (arguments : LoadArguments)
  | addChatMessage (message role : CString)
  | startCompletion (query : CString)
  | completionLoop (oracle : LoopOracle)
  | stopCompletion
  | close

/-- The process around one native object, if there is one. -/
inductive Process where
  | running (session : Option LLMInference)
  | ended (how : JniOutcome)

def Process.after (outcome : JniOutcome) (session : Option LLMInference) : Process :=
  match outcome with
  | .returned => .running session
  | .pending _ => .running session
  | how => .ended how

/-- One native method.  When `loadModel` throws, the handle it returns is lost
and the talker keeps the object it had. -/
def jniCall (session : Option LLMInference) : JniCall → Option Process
  | .loadModel oracle arguments =>
    match Native.loadModel oracle arguments with
    | .ok s => some (.after .returned (some s))
    | .error failure => some (.after (jniThrow true failure) session)
  | .addChatMessage message role =>
    session.map fun s => .after .returned (some (s.addChatMessage message role))
  | .startCompletion query =>
    session.map fun s =>
      let (result, after) := s.startCompletion query
      .after (jniReturn false result) (some after)
  | .completionLoop oracle =>
    session.map fun s =>
      let (result, after) := s.completionLoop oracle
      .after (jniReturn true result) (some after)
  | .stopCompletion =>
    session.map fun s =>
      let (result, after) := s.stopCompletion
      .after (jniReturn false result) (some after)
  | .close => session.map fun _ => .after .returned none

def jniStep : Process → JniCall → Option Process
  | .running session, call => jniCall session call
  | .ended _, _ => none

inductive JniSteps (session : Option LLMInference) : JniCall → Process → Prop where
  | loaded (oracle : LoadOracle) (arguments : LoadArguments) (s : LLMInference)
      (returned : Native.loadModel oracle arguments = .ok s) :
    JniSteps session (.loadModel oracle arguments) (.running (some s))
  | loadThrew (oracle : LoadOracle) (arguments : LoadArguments) (failure : Failure)
      (threw : Native.loadModel oracle arguments = .error failure) :
    JniSteps session (.loadModel oracle arguments) (.after (jniThrow true failure) session)
  | addChatMessage (message role : CString) (s : LLMInference) (live : session = some s) :
    JniSteps session (.addChatMessage message role)
      (.running (some (s.addChatMessage message role)))
  | startCompletion (query : CString) (s : LLMInference) (live : session = some s) :
    JniSteps session (.startCompletion query)
      (.after (jniReturn false (s.startCompletion query).1) (some (s.startCompletion query).2))
  | completionLoop (oracle : LoopOracle) (s : LLMInference) (live : session = some s) :
    JniSteps session (.completionLoop oracle)
      (.after (jniReturn true (s.completionLoop oracle).1) (some (s.completionLoop oracle).2))
  | stopCompletion (s : LLMInference) (live : session = some s) :
    JniSteps session .stopCompletion
      (.after (jniReturn false s.stopCompletion.1) (some s.stopCompletion.2))
  | close : JniSteps session .close (.running none)

theorem jniSteps_of_step {session : Option LLMInference} {call : JniCall} {next : Process}
    (taken : jniStep (.running session) call = some next) : JniSteps session call next := by
  cases call with
  | loadModel oracle arguments =>
      simp only [jniStep, jniCall] at taken
      split at taken <;> cases taken
      · exact .loaded oracle arguments _ ‹_›
      · exact .loadThrew oracle arguments _ ‹_›
  | addChatMessage message role =>
      obtain ⟨s, live, rfl⟩ := Option.map_eq_some_iff.mp taken
      exact .addChatMessage message role s live
  | startCompletion query =>
      obtain ⟨s, live, rfl⟩ := Option.map_eq_some_iff.mp taken
      exact .startCompletion query s live
  | completionLoop oracle =>
      obtain ⟨s, live, rfl⟩ := Option.map_eq_some_iff.mp taken
      exact .completionLoop oracle s live
  | stopCompletion =>
      obtain ⟨s, live, rfl⟩ := Option.map_eq_some_iff.mp taken
      exact .stopCompletion s live
  | close =>
      obtain ⟨s, live, rfl⟩ := Option.map_eq_some_iff.mp taken
      exact .close

def NothingEscaped : Process → Prop
  | .running _ => True
  | .ended how => ∀ failure, how ≠ .escaped failure

instance : DecidablePred NothingEscaped
  | .running _ => isTrue trivial
  | .ended .returned => isTrue (by simp [NothingEscaped])
  | .ended (.pending _) => isTrue (by simp [NothingEscaped])
  | .ended (.escaped failure) => isFalse fun none => none failure rfl
  | .ended .aborted => isTrue (by simp [NothingEscaped])
  | .ended .hangs => isTrue (by simp [NothingEscaped])

/-- The tokenizer throws no exception on this text. -/
def LlamaModel.Tokenizable (model : LlamaModel) (text : Bytes) : Prop :=
  ∀ failure, model.commonTokenize text = .error failure → ¬ failure.Thrown

/-- The given template is supported, the offset lies in the text it renders, and the
tokenizer takes what lies behind. -/
def LLMInference.Promptable (query : CString) (s : LLMInference) : Prop :=
  let kind := llmChatDetectTemplate s.chatTemplate.bytes
  let full := render kind (s.messages ++ [userMessage query]) true
  kind ≠ .unknown ∧ s.promptOffset ≤ full.length ∧
    s.model.Tokenizable (full.drop s.promptOffset.toNat)

/-- The model's own template is supported. -/
def LLMInference.OwnTemplateSupported (s : LLMInference) : Prop :=
  llmChatDetectTemplate (currTmpl s.model.chatTemplate) ≠ .unknown

/-- The condition on a call: a method without a handler has nothing to throw. -/
def NothingToThrow : Process → JniCall → Prop
  | .running (some s), .startCompletion query => s.Promptable query
  | .running (some s), .stopCompletion => s.OwnTemplateSupported
  | _, _ => True

/-! ## What the operations throw -/

theorem nothingEscaped_after (outcome : JniOutcome) (session : Option LLMInference) :
    NothingEscaped (.after outcome session) ↔ ∀ failure, outcome ≠ .escaped failure := by
  cases outcome <;> simp [Process.after, NothingEscaped]

theorem escapes_iff_thrown (failure : Failure) :
    (∃ other, jniThrow false failure = .escaped other) ↔ failure.Thrown := by
  cases failure <;> simp [jniThrow, Failure.Thrown]

theorem not_escapes_iff (failure : Failure) :
    (∀ other, jniThrow false failure ≠ .escaped other) ↔ ¬ failure.Thrown := by
  rw [← escapes_iff_thrown, not_exists]

theorem startCompletion_escapes_iff {s : LLMInference} (nonneg : 0 ≤ s.prevLen)
    (query : CString) :
    (∀ failure, jniReturn false (s.startCompletion query).1 ≠ .escaped failure) ↔
      s.Promptable query := by
  have offset : 0 ≤ s.promptOffset := by
    rw [promptOffset]
    split <;> omega
  by_cases unknown : llmChatDetectTemplate s.chatTemplate.bytes = .unknown
  · rw [startCompletion_unknown unknown]
    simp [jniReturn, jniThrow, Promptable, unknown]
  · have sliced := slicePrompt_detected unknown rfl query
    simp only [offset, true_and] at sliced
    simp only [Promptable, ne_eq, unknown, not_false_eq_true, true_and]
    rcases startCompletion_cases query s with
      ⟨failure, call, same | ⟨prompt, same, tokenized⟩⟩ | ⟨prompt, tokens, same, tokenized, call⟩
    · -- no prompt: the offset is outside
      rw [same] at sliced
      split at sliced
      · cases sliced
      · rename_i outside
        rw [call, jniReturn, not_escapes_iff, Except.error.inj sliced]
        simp [Failure.Thrown, outside]
    · rw [same] at sliced
      split at sliced
      · rename_i inside
        rw [call, jniReturn, not_escapes_iff, ← Except.ok.inj sliced, LlamaModel.Tokenizable,
          tokenized]
        simp [inside]
      · cases sliced
    · rw [same] at sliced
      split at sliced
      · rename_i inside
        rw [call, ← Except.ok.inj sliced, LlamaModel.Tokenizable, tokenized]
        simp [jniReturn, inside]
      · cases sliced

theorem stopCompletion_escapes_iff (s : LLMInference) :
    (∀ failure, jniReturn false s.stopCompletion.1 ≠ .escaped failure) ↔ s.OwnTemplateSupported := by
  have stored := (stopCompletion_frame s).prevLen
  rw [stopCompletion_result]
  rcases Classical.em s.OwnTemplateSupported with supported | unsupported
  · rw [llamaChatApplyTemplate_supported supported rfl] at stored
    have notNegative : ¬ s.stopCompletion.2.prevLen < 0 := by
      rw [stored]
      exact Int.not_lt.mpr (Int.natCast_nonneg _)
    simp [notNegative, jniReturn, supported]
  · rw [OwnTemplateSupported, ne_eq, not_not] at unsupported
    simp only [llamaChatApplyTemplate, unsupported, llmChatApplyTemplate] at stored
    simp [stored, jniReturn, jniThrow, OwnTemplateSupported, unsupported]

theorem completionLoop_nothingEscapes (oracle : LoopOracle) (s : LLMInference)
    (failure : Failure) : jniReturn true (s.completionLoop oracle).1 ≠ .escaped failure := by
  have verdict : ∀ outcome : DecodeOutcome,
      jniReturn true (decodeVerdict outcome) ≠ .escaped failure := by
    intro outcome
    cases outcome with
    | returned ret =>
        rw [decodeVerdict]
        split <;> simp [jniReturn, jniThrow]
    | threw what | assertFailed | diverged => simp [decodeVerdict, jniReturn, jniThrow]
  have decoded : jniReturn true (s.decodeBatch oracle.toDecodeOracle).1 ≠ .escaped failure := by
    simp only [decodeBatch]
    split
    · simp [jniReturn, jniThrow]
    · exact verdict _
  simp only [completionLoop]
  cases batch : s.decodeBatch oracle.toDecodeOracle with
  | mk verdict after =>
      rw [batch] at decoded
      cases verdict with
      | ok passed => simp [jniReturn]
      | error thrown => exact decoded

theorem loadModel_throws {oracle : LoadOracle} {arguments : LoadArguments} {failure : Failure}
    (threw : Native.loadModel oracle arguments = .error failure) :
    ∃ what, failure = .runtimeError what := by
  simp only [Native.loadModel] at threw
  split at threw
  · exact ⟨_, (Except.error.inj threw).symm⟩
  · split at threw
    · exact ⟨_, (Except.error.inj threw).symm⟩
    · split at threw
      · cases threw
      · exact ⟨_, (Except.error.inj threw).symm⟩

theorem loadModel_nothingEscapes {oracle : LoadOracle} {arguments : LoadArguments}
    {thrown : Failure} (threw : Native.loadModel oracle arguments = .error thrown)
    (failure : Failure) : jniThrow true thrown ≠ .escaped failure := by
  obtain ⟨what, rfl⟩ := loadModel_throws threw
  simp [jniThrow]

/-! ## Runs -/

def OffsetsCount : Process → Prop
  | .running (some s) => 0 ≤ s.prevLen
  | _ => True

theorem offsetsCount_after {outcome : JniOutcome} {session : Option LLMInference}
    (counts : (∀ failure, outcome ≠ .escaped failure) → OffsetsCount (.running session)) :
    OffsetsCount (.after outcome session) := by
  cases outcome with
  | returned | pending what => exact counts (by simp)
  | escaped failure | aborted | hangs => trivial

theorem JniSteps.offsetsCount {session : Option LLMInference} {call : JniCall} {next : Process}
    (taken : JniSteps session call next) (counts : OffsetsCount (.running session)) :
    OffsetsCount next := by
  cases taken with
  | loaded oracle arguments s returned =>
      obtain ⟨model, rfl⟩ := loadModel_eq_ok returned
      exact Int.le_refl 0
  | loadThrew oracle arguments failure threw => exact offsetsCount_after fun _ => counts
  | addChatMessage message role s live =>
      rw [live] at counts
      exact counts
  | startCompletion query s live =>
      rw [live] at counts
      refine offsetsCount_after fun _ => ?_
      have offset := (startCompletion_frame query s).prevLen
      have before : 0 ≤ s.prevLen := counts
      rw [OffsetsCount, offset]
      split <;> omega
  | completionLoop oracle s live =>
      rw [live] at counts
      refine offsetsCount_after fun _ => ?_
      rw [OffsetsCount, (completionLoop_frame oracle s).prevLen]
      exact counts
  | stopCompletion s live =>
      refine offsetsCount_after fun caught => ?_
      rw [stopCompletion_result] at caught
      by_contra negative
      rw [OffsetsCount, Int.not_le] at negative
      simp [negative, jniReturn, jniThrow] at caught
  | close => trivial

theorem JniSteps.keepsInside_iff {session : Option LLMInference} {call : JniCall}
    {next : Process} (taken : JniSteps session call next)
    (counts : OffsetsCount (.running session)) :
    NothingEscaped next ↔ NothingToThrow (.running session) call := by
  cases taken with
  | loaded oracle arguments s returned => simp [NothingEscaped, NothingToThrow]
  | loadThrew oracle arguments failure threw =>
      rw [nothingEscaped_after]
      exact iff_of_true (loadModel_nothingEscapes threw) (by simp [NothingToThrow])
  | addChatMessage message role s live => simp [NothingEscaped, NothingToThrow]
  | startCompletion query s live =>
      subst live
      rw [nothingEscaped_after]
      exact startCompletion_escapes_iff counts query
  | completionLoop oracle s live =>
      rw [nothingEscaped_after]
      exact iff_of_true (completionLoop_nothingEscapes oracle s) (by simp [NothingToThrow])
  | stopCompletion s live =>
      subst live
      rw [nothingEscaped_after]
      exact stopCompletion_escapes_iff s
  | close => simp [NothingEscaped, NothingToThrow]

/-- No C++ exception leaves a native method in any state of a run exactly when
the methods without a handler have nothing to throw. -/
theorem nothingEscaped_iff (calls : List JniCall) :
    Visits jniStep NothingEscaped (.running none) calls ↔
      StepsMeet jniStep NothingToThrow (.running none) calls := by
  refine visits_iff_stepsMeet (I := OffsetsCount) ?_ ?_ trivial trivial
  · intro p call next counts taken
    cases p with
    | ended how => simp [jniStep] at taken
    | running session => exact (jniSteps_of_step taken).offsetsCount counts
  · intro p call next counts _ taken
    cases p with
    | ended how => simp [jniStep] at taken
    | running session => exact (jniSteps_of_step taken).keepsInside_iff counts

def foreignName : CString := ⟨lit "foreign", by decide⟩

def foreignArguments : LoadArguments := { smallArguments true with chatTemplate := foreignName }

/-- `startCompletion` lets the `std::runtime_error` through. -/
theorem not_nothingEscaped_foreign :
    ¬ Visits jniStep NothingEscaped (.running none)
      [.loadModel (smallOracle (lit "Hello")) foreignArguments,
        .startCompletion (turnOf []).query] := by
  decide +kernel

end MineGPT.Native
