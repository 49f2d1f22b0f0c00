import MineGPT.Lib.Machine
import MineGPT.Native.Admission
import MineGPT.Native.Utf8Accept

/-!
# What is kept back

`completionLoop` shows the pending text only when all of it passes
`_isValidUtf8`.  One byte that fits nowhere, or pieces that keep ending inside
a character, hold back everything sampled after them.  Only an unfinished
character is kept back exactly as long as every piece ends where a character
ends, or stays inside the one that is unfinished.
-/

set_option autoImplicit false

namespace MineGPT.Native

open MineGPT.Lib MineGPT.Lib.ByteString MineGPT.Lib.Utf8 MineGPT.Chat LLMInference
open MineGPT.Lib.Machine (Visits)
open String (utf8EncodeChar)

def nativeStep (s : LLMInference) (call : NativeCall) : Option LLMInference := some (call.run s)

/-- The bytes kept back are a proper initial part of the sequence of one
character. -/
def WithholdsPartialChar (s : LLMInference) : Prop := PartialChar s.cacheResponseTokens

/-- The piece of the token that the call samples, if it comes to one that does not
end the reply. -/
def NativeCall.sampled (s : LLMInference) : NativeCall → List Bytes
  | .completionLoop oracle =>
    match (s.decodeBatch oracle.toDecodeOracle).1 with
    | .error _ => []
    | .ok () =>
      if s.model.isEog oracle.sampledToken then []
      else [s.model.commonTokenToPiece oracle.sampledToken]
  | _ => []

/-- What the call returns of the reply. -/
def NativeCall.shown (s : LLMInference) : NativeCall → Bytes
  | .completionLoop oracle =>
    match (s.completionLoop oracle).1 with
    | .error _ => []
    | .ok text => if s.model.isEog oracle.sampledToken then [] else text
  | _ => []

def sampledPieces : LLMInference → List NativeCall → List Bytes
  | _, [] => []
  | s, call :: rest => call.sampled s ++ sampledPieces (call.run s) rest

def shownText : LLMInference → List NativeCall → Bytes
  | _, [] => []
  | s, call :: rest => call.shown s ++ shownText (call.run s) rest

/-- Whatever was sampled before it, a text that the model has just sampled was
shown to its end. -/
def ShowsText (s : LLMInference) (calls : List NativeCall) : Prop :=
  ∀ first rest text, calls = first ++ rest →
    encode text <:+ (sampledPieces s first).flatten → encode text <:+ shownText s first

theorem decodeBatch_passed_iff (s : LLMInference) (oracle : LoopOracle) :
    (s.decodeBatch oracle.toDecodeOracle).1 = .ok () ↔
      ∃ text, (s.completionLoop oracle).1 = .ok text := by
  simp only [completionLoop]
  cases s.decodeBatch oracle.toDecodeOracle with
  | mk result after => cases result <;> simp

theorem run_keeps_cache {s : LLMInference} {call : NativeCall}
    (other : ∀ oracle, call ≠ .completionLoop oracle) :
    (call.run s).cacheResponseTokens = s.cacheResponseTokens := by
  cases call with
  | addChatMessage message role => rfl
  | startCompletion query => exact (startCompletion_frame query s).cache
  | completionLoop oracle => exact absurd rfl (other oracle)
  | stopCompletion => exact (stopCompletion_frame s).cache

theorem NativeCall.sampled_completionLoop_threw {s : LLMInference} {oracle : LoopOracle}
    {failure : Failure} (threw : (s.completionLoop oracle).1 = .error failure) :
    NativeCall.sampled s (.completionLoop oracle) = [] := by
  simp only [NativeCall.sampled]
  cases passed : (s.decodeBatch oracle.toDecodeOracle).1 with
  | error failure => rfl
  | ok _ =>
      obtain ⟨text, returned⟩ := (decodeBatch_passed_iff s oracle).mp passed
      rw [threw] at returned
      cases returned

theorem NativeCall.sampled_cases (s : LLMInference) (call : NativeCall) :
    (call.sampled s = [] ∧ call.shown s = [] ∧
      (call.run s).cacheResponseTokens = s.cacheResponseTokens) ∨
    ∃ piece text, call.sampled s = [piece] ∧ call.shown s = text ∧
      Sampled s (call.run s) piece text := by
  cases call with
  | addChatMessage message role => exact Or.inl ⟨rfl, rfl, run_keeps_cache (by simp)⟩
  | startCompletion query => exact Or.inl ⟨rfl, rfl, run_keeps_cache (by simp)⟩
  | stopCompletion => exact Or.inl ⟨rfl, rfl, run_keeps_cache (by simp)⟩
  | completionLoop oracle =>
      rcases completionLoop_cases oracle s with
        ⟨failure, after, call, threw⟩ | ⟨eog, _, after, call, ended⟩ |
          ⟨notEog, _, text, after, call, sampled⟩
      · refine Or.inl ⟨sampled_completionLoop_threw (by rw [call]), ?_, ?_⟩
        · rw [NativeCall.shown, call]
        · rw [NativeCall.run, call]
          exact threw.cache
      · have passed := (decodeBatch_passed_iff s oracle).mpr ⟨_, by rw [call]⟩
        refine Or.inl ⟨?_, ?_, ?_⟩
        · simp [NativeCall.sampled, passed, eog]
        · simp [NativeCall.shown, eog, call]
        · rw [NativeCall.run, call]
          exact ended.cache
      · have passed := (decodeBatch_passed_iff s oracle).mpr ⟨_, by rw [call]⟩
        refine Or.inr ⟨s.model.commonTokenToPiece oracle.sampledToken, text, ?_, ?_, ?_⟩
        · simp [NativeCall.sampled, passed, notEog]
        · simp [NativeCall.shown, notEog, call]
        · rw [NativeCall.run, call]
          exact sampled

theorem shown_append_kept (calls : List NativeCall) (s : LLMInference) :
    shownText s calls ++ (calls.foldl NativeCall.run s).cacheResponseTokens =
      s.cacheResponseTokens ++ (sampledPieces s calls).flatten := by
  induction calls generalizing s with
  | nil => simp [shownText, sampledPieces]
  | cons call rest ih =>
      simp only [shownText, sampledPieces, List.foldl_cons, List.append_assoc, ih,
        List.flatten_append]
      rcases NativeCall.sampled_cases s call with
        ⟨none, silent, kept⟩ | ⟨piece, text, one, shown, sampled⟩
      · simp [none, silent, kept]
      · rw [one, shown, ← List.append_assoc, ← sampled.conserved]
        simp

theorem completes_iff_isValidUtf8 {unfinished piece : Bytes} (before : PartialChar unfinished)
    (noNul : 0 ∉ unfinished ++ piece) :
    isValidUtf8 (unfinished ++ piece) = true ↔ Completes unfinished piece := by
  rw [isValidUtf8_iff_forms, completes_iff_forms before, cstr_eq_self noNul]

/-- What the flush decides about one piece, from the pieces alone. -/
theorem visits_iff_aligned {calls : List NativeCall} :
    ∀ {s : LLMInference}, WithholdsPartialChar s → 0 ∉ s.cacheResponseTokens →
      (∀ piece ∈ sampledPieces s calls, 0 ∉ piece) →
      (Visits nativeStep WithholdsPartialChar s calls ↔
        Aligned s.cacheResponseTokens (sampledPieces s calls)) := by
  induction calls with
  | nil => exact fun before _ _ => iff_of_true before trivial
  | cons call rest ih =>
      intro s before noNul pieces
      have step : Visits nativeStep WithholdsPartialChar s (call :: rest) ↔
          Visits nativeStep WithholdsPartialChar (call.run s) rest := by
        simp [Visits, nativeStep, before]
      rw [step]
      rw [sampledPieces] at pieces ⊢
      rcases NativeCall.sampled_cases s call with
        ⟨none, _, kept⟩ | ⟨piece, text, one, _, sampled⟩
      · rw [none, List.nil_append] at pieces ⊢
        rw [← kept] at noNul ⊢
        exact ih (by rwa [WithholdsPartialChar, kept]) noNul pieces
      · rw [one, List.singleton_append] at pieces ⊢
        have wholeNul : 0 ∉ s.cacheResponseTokens ++ piece := by
          simpa using ⟨noNul, pieces piece (by simp)⟩
        have later : ∀ piece ∈ sampledPieces (call.run s) rest, 0 ∉ piece :=
          fun other member => pieces other (by simp [member])
        have accepted := completes_iff_isValidUtf8 before wholeNul
        have kept : (call.run s).cacheResponseTokens = _ := sampled.cache
        simp only [residue, List.foldl_cons, List.foldl_nil] at kept
        rw [Aligned, ← accepted]
        cases flush : isValidUtf8 (s.cacheResponseTokens ++ piece) with
        | true =>
            rw [flush, if_pos rfl] at kept
            have behind := ih (by rw [WithholdsPartialChar, kept]; exact partialChar_nil)
              (by simp [kept]) later
            rw [kept] at behind
            rw [behind]
            refine ⟨fun aligned => Or.inr ⟨rfl, aligned⟩, ?_⟩
            rintro (⟨inside, aligned⟩ | ⟨_, aligned⟩)
            · -- an accepted text that is inside a character is empty
              obtain ⟨forms, each, cut⟩ := (completes_iff_forms before).mp (accepted.mp flush)
              by_cases begun : s.cacheResponseTokens ++ piece = []
              · rwa [begun] at aligned
              · exact absurd cut (inside.ne_forms begun each)
            · exact aligned
        | false =>
            rw [flush, if_neg (by decide)] at kept
            by_cases inside : PartialChar (s.cacheResponseTokens ++ piece)
            · have behind := ih (by rwa [WithholdsPartialChar, kept]) (by rwa [kept]) later
              rw [kept] at behind
              rw [behind]
              simp [inside]
            · refine iff_of_false (fun visits => inside ?_) (by simp [inside])
              have here : PartialChar (call.run s).cacheResponseTokens := visits.start
              rwa [kept] at here

theorem visits_append {P : LLMInference → Prop} {first rest : List NativeCall} :
    ∀ {s : LLMInference}, Visits nativeStep P s (first ++ rest) → P (first.foldl NativeCall.run s) := by
  induction first with
  | nil => exact fun visits => visits.start
  | cons call first ih => exact fun visits => ih (visits.2 _ rfl)

theorem showsText_of_visits {s : LLMInference} {calls : List NativeCall}
    (start : s.cacheResponseTokens = [])
    (visits : Visits nativeStep WithholdsPartialChar s calls) : ShowsText s calls := by
  rintro first rest text rfl written
  have kept : PartialChar (first.foldl NativeCall.run s).cacheResponseTokens := visits_append visits
  have whole := shown_append_kept first s
  rw [start, List.nil_append] at whole
  by_cases begun : (first.foldl NativeCall.run s).cacheResponseTokens = []
  · rw [begun, List.append_nil] at whole
    rwa [whole]
  · by_cases some : text = []
    · subst some
      exact List.nil_suffix
    · exact absurd written (kept.not_suffix begun some ⟨_, whole⟩)

/-- In every state of a run no more than an unfinished character is kept back, and
every text is shown to its end, exactly when the sampled pieces are aligned. -/
theorem withheld_iff {oracle : LoadOracle} {arguments : LoadArguments}
    {initial : List LlamaChatMessage} {s : LLMInference}
    (opened : openSession oracle arguments initial = .ok s) {calls : List NativeCall}
    (noNul : ∀ piece ∈ sampledPieces s calls, 0 ∉ piece) :
    (Visits nativeStep WithholdsPartialChar s calls ∧ ShowsText s calls) ↔
      Aligned [] (sampledPieces s calls) := by
  have start : s.cacheResponseTokens = [] := (openSession_fresh opened).cache
  have fresh : WithholdsPartialChar s := by
    rw [WithholdsPartialChar, start]
    exact partialChar_nil
  have aligned := visits_iff_aligned fresh (by simp [start]) noNul
  rw [start] at aligned
  rw [← aligned]
  exact and_iff_left_of_imp fun visits => showsText_of_visits start visits

/-- Two turns, each with a character cut in two. -/
def cutCalls : List NativeCall :=
  [.startCompletion (turnOf []).query, .completionLoop (answer 1), .completionLoop (answer 2),
    .completionLoop (answer 3), .stopCompletion,
    .startCompletion (turnOf []).query, .completionLoop (answer 1), .completionLoop (answer 2)]

theorem aligned_cut :
    Aligned [] (sampledPieces (splitSession cutPieces) cutCalls) := by
  have pieces : sampledPieces (splitSession cutPieces) cutCalls = cutPieces ++ cutPieces := by
    decide +kernel
  have sequence : utf8EncodeChar (Char.ofNat 0x4F60) = [0xE4] ++ [0xBD, 0xA0] := by decide +kernel
  have inside : PartialChar [0xE4] := ⟨Char.ofNat 0x4F60, 0xBD, [0xA0], sequence⟩
  have whole : Completes [0xE4] [0xBD, 0xA0] :=
    ⟨[0xBD, 0xA0], [], rfl, by simp, Or.inr (by rw [← sequence]; exact form_char _)⟩
  rw [pieces]
  exact Or.inl ⟨inside, Or.inr ⟨whole, Or.inl ⟨inside, Or.inr ⟨whole, trivial⟩⟩⟩⟩

theorem withheld_iff_cut :
    Visits nativeStep WithholdsPartialChar (splitSession cutPieces) cutCalls ∧
      ShowsText (splitSession cutPieces) cutCalls :=
  (withheld_iff (splitSession_opened cutPieces) (by decide +kernel)).mpr
    aligned_cut

/-- A byte that occurs in no UTF-8 text, then a word. -/
def brokenPieces : List Bytes := [[0xFF], lit "Hello"]

def brokenCalls : List NativeCall :=
  [.startCompletion (turnOf []).query, .completionLoop (answer 1), .completionLoop (answer 2),
    .completionLoop (answer 3), .stopCompletion,
    .startCompletion (turnOf []).query, .completionLoop (answer 2)]

/-- The word is held back in its own turn and again in the next one. -/
theorem not_withheld_broken :
    openSession (splitOracle brokenPieces) (smallArguments true) [] =
        .ok (splitSession brokenPieces) ∧
      (∀ piece ∈ brokenPieces, 0 ∉ piece) ∧
      (brokenCalls.foldl NativeCall.run (splitSession brokenPieces)).cacheResponseTokens =
        0xFF :: (lit "Hello" ++ lit "Hello") ∧
      ¬ Visits nativeStep WithholdsPartialChar (splitSession brokenPieces) brokenCalls := by
  have kept : (brokenCalls.foldl NativeCall.run (splitSession brokenPieces)).cacheResponseTokens =
      0xFF :: (lit "Hello" ++ lit "Hello") := by decide +kernel
  refine ⟨splitSession_opened _, by decide +kernel, kept, fun visits => ?_⟩
  have held := (visits.finish rfl).length_le
  revert held
  decide +kernel

end MineGPT.Native
