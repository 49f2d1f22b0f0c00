import MineGPT.Native.JniText

/-!
# The end of the flow

`getResponse` leaves its loop when the Kotlin string it was given equals
`[EOG]`, and calls `stopCompletion` then.  `completionLoop` returns that text
for an end-of-generation token, but it can be the text of ordinary tokens as
well: pieces are rendered with special tokens and nothing escapes them.
-/

set_option autoImplicit false

namespace MineGPT.Native

open MineGPT.Lib.ByteString MineGPT.Lib.ModifiedUtf8 MineGPT.Chat LLMInference

/-- `"[EOG]"` in Kotlin. -/
def endMarker : List UInt16 := utf16 ['[', 'E', 'O', 'G', ']']

/-- What a collector of the flow gets. -/
structure Collected where
  emitted : List (List UInt16)
  /-- The session on which `stopCompletion` is called, and what is not sampled by then. -/
  stopCalled : Option (LLMInference × List LoopOracle)

section Strings

variable (newStringUTF : Bytes → List UInt16)

/-- The `while` loop of `getResponse`, over the strings that `completionLoop`
returns to Kotlin. -/
def collectLoop : List LoopOracle → LLMInference → Collected
  | [], _ => { emitted := [], stopCalled := none }
  | oracle :: rest, s =>
    match s.completionLoop oracle with
    | (.error _, _) => { emitted := [], stopCalled := none }
    | (.ok text, after) =>
      let piece := newStringUTF (cstr text)
      if piece = endMarker then { emitted := [], stopCalled := some (after, rest) }
      else
        let later := collectLoop rest after
        { later with emitted := piece :: later.emitted }

def collectResponse (query : CString) (oracles : List LoopOracle) (s : LLMInference) : Collected :=
  match s.startCompletion query with
  | (.error _, _) => { emitted := [], stopCalled := none }
  | (.ok _, started) => collectLoop newStringUTF oracles started

/-- The strings `texts` of the tokens up to the end of generation are emitted but
for the last one, and `stopCompletion` is called in the state behind it, with
`later` still to come. -/
structure EndsAtEog (texts : List Bytes) (after : LLMInference) (later : List LoopOracle)
    (c : Collected) : Prop where
  emitted : c.emitted = texts.dropLast.map fun text => newStringUTF (cstr text)
  stops : c.stopCalled = some (after, later)

/-- The piece completes a text that may be shown and that Kotlin reads as `[EOG]`. -/
def CompletesMarker (pending piece : Bytes) : Prop :=
  isValidUtf8 (pending ++ piece) = true ∧ newStringUTF (cstr (pending ++ piece)) = endMarker

def SpellsMarker (model : LlamaModel) (pending : Bytes) (oracles : List LoopOracle) : Prop :=
  ∃ earlier oracle, earlier ++ [oracle] <+: oracles ∧
    CompletesMarker newStringUTF
      (residue pending (earlier.map fun o => model.commonTokenToPiece o.sampledToken))
      (model.commonTokenToPiece oracle.sampledToken)

end Strings

variable {newStringUTF : Bytes → List UInt16}

theorem spellsMarker_nil (model : LlamaModel) (pending : Bytes) :
    ¬ SpellsMarker newStringUTF model pending [] := by
  rintro ⟨earlier, oracle, part, _⟩
  simpa using part.length_le

theorem spellsMarker_cons {model : LlamaModel} {pending : Bytes} {oracle : LoopOracle}
    {rest : List LoopOracle} :
    SpellsMarker newStringUTF model pending (oracle :: rest) ↔
      CompletesMarker newStringUTF pending (model.commonTokenToPiece oracle.sampledToken) ∨
      SpellsMarker newStringUTF model
        (residue pending [model.commonTokenToPiece oracle.sampledToken]) rest := by
  constructor
  · rintro ⟨earlier, found, part, completes⟩
    cases earlier with
    | nil =>
        rw [List.nil_append, List.cons_prefix_cons] at part
        obtain ⟨rfl, _⟩ := part
        exact Or.inl completes
    | cons first earlier =>
        rw [List.cons_append, List.cons_prefix_cons] at part
        obtain ⟨rfl, part⟩ := part
        exact Or.inr ⟨earlier, found, part, completes⟩
  · rintro (completes | ⟨earlier, found, part, completes⟩)
    · exact ⟨[], oracle, by simp, completes⟩
    · exact ⟨oracle :: earlier, found, List.cons_prefix_cons.mpr ⟨rfl, part⟩, completes⟩

theorem newStringUTF_marker (decodes : ∀ units, newStringUTF (modifiedUtf8 units) = units) :
    newStringUTF (cstr (lit "[EOG]")) = endMarker := by
  have encoded : cstr (lit "[EOG]") = modifiedUtf8 endMarker := by decide +kernel
  rw [encoded, decodes]

/-- The string of an ordinary token ends the loop exactly if its piece completes
the marker. -/
theorem LLMInference.Sampled.reads_marker_iff
    (decodes : ∀ units, newStringUTF (modifiedUtf8 units) = units)
    {s t : LLMInference} {piece text : Bytes} (sampled : Sampled s t piece text) :
    newStringUTF (cstr text) = endMarker ↔
      CompletesMarker newStringUTF s.cacheResponseTokens piece := by
  have cache := sampled.cache
  have conserved := sampled.conserved
  simp only [residue, List.foldl_cons, List.foldl_nil] at cache
  unfold CompletesMarker
  cases accepted : isValidUtf8 (s.cacheResponseTokens ++ piece) with
  | true =>
      rw [accepted, if_pos rfl] at cache
      rw [cache, List.append_nil] at conserved
      rw [conserved]
      simp
  | false =>
      rw [accepted, if_neg (by decide)] at cache
      rw [cache] at conserved
      have silent : text = [] := List.self_eq_append_left.mp conserved
      have empty : newStringUTF (cstr []) = [] := decodes []
      rw [silent, empty]
      refine iff_of_false ?_ (fun completes => Bool.false_ne_true completes.1)
      decide

theorem LLMInference.completionCalls_length : ∀ (oracles : List LoopOracle)
    {s after : LLMInference} {texts : List Bytes},
    s.completionCalls oracles = (.ok texts, after) → texts.length = oracles.length := by
  intro oracles
  induction oracles with
  | nil =>
      intro s after texts calls
      simp only [completionCalls, Prod.mk.injEq, Except.ok.injEq] at calls
      rw [← calls.1]
      rfl
  | cons oracle rest ih =>
      intro s after texts calls
      obtain ⟨text, next, later, _, behind, rfl⟩ := completionCalls_cons calls
      simp [ih behind]

theorem collectLoop_stops {oracle : LoopOracle} {rest : List LoopOracle} {s after : LLMInference}
    {text : Bytes} (call : s.completionLoop oracle = (.ok text, after))
    (marker : newStringUTF (cstr text) = endMarker) :
    collectLoop newStringUTF (oracle :: rest) s =
      { emitted := [], stopCalled := some (after, rest) } := by
  simp [collectLoop, call, marker]

theorem collectLoop_emits {oracle : LoopOracle} {rest : List LoopOracle} {s after : LLMInference}
    {text : Bytes} (call : s.completionLoop oracle = (.ok text, after))
    (other : newStringUTF (cstr text) ≠ endMarker) :
    collectLoop newStringUTF (oracle :: rest) s =
      { collectLoop newStringUTF rest after with
        emitted := newStringUTF (cstr text) :: (collectLoop newStringUTF rest after).emitted } := by
  simp [collectLoop, call, other]

theorem endsAtEog_cons_iff {text : Bytes} {texts : List Bytes} (more : texts ≠ [])
    {after : LLMInference} {later : List LoopOracle} (c : Collected) :
    EndsAtEog newStringUTF (text :: texts) after later
        { c with emitted := newStringUTF (cstr text) :: c.emitted } ↔
      EndsAtEog newStringUTF texts after later c := by
  have split : (text :: texts).dropLast = text :: texts.dropLast :=
    List.dropLast_cons_of_ne_nil more
  constructor
  · rintro ⟨emitted, stops⟩
    rw [split, List.map_cons, List.cons.injEq] at emitted
    exact ⟨emitted.2, stops⟩
  · rintro ⟨emitted, stops⟩
    refine ⟨?_, stops⟩
    rw [split, List.map_cons, ← emitted]

theorem not_endsAtEog_of_stops {text : Bytes} {texts : List Bytes} (more : texts ≠ [])
    {after : LLMInference} {later : List LoopOracle}
    {left : Option (LLMInference × List LoopOracle)} :
    ¬ EndsAtEog newStringUTF (text :: texts) after later { emitted := [], stopCalled := left } := by
  rintro ⟨emitted, _⟩
  rw [List.dropLast_cons_of_ne_nil more] at emitted
  cases emitted

theorem collectLoop_endsAtEog_iff (decodes : ∀ units, newStringUTF (modifiedUtf8 units) = units)
    {last : LoopOracle} {later : List LoopOracle} :
    ∀ (oracles : List LoopOracle) (s after : LLMInference) (texts : List Bytes),
    (∀ oracle ∈ oracles, s.model.isEog oracle.sampledToken = false) →
    s.model.isEog last.sampledToken = true →
    s.completionCalls (oracles ++ [last]) = (.ok texts, after) →
    (EndsAtEog newStringUTF texts after later
        (collectLoop newStringUTF (oracles ++ last :: later) s) ↔
      ¬ SpellsMarker newStringUTF s.model s.cacheResponseTokens oracles) := by
  intro oracles
  -- induction on the tokens before the end; `residue` follows what is kept back
  induction oracles with
  | nil =>
      intro s after texts _ eog calls
      obtain ⟨text, next, strings, first, behind, rfl⟩ := completionCalls_cons calls
      simp only [completionCalls, Prod.mk.injEq, Except.ok.injEq] at behind
      obtain ⟨rfl, rfl⟩ := behind
      refine iff_of_true ?_ (spellsMarker_nil _ _)
      rcases completionLoop_cases last s with
        ⟨failure, _, call, _⟩ | ⟨_, _, _, call, _⟩ | ⟨notEog, _⟩
      · simp [call] at first
      · rw [call, Prod.mk.injEq, Except.ok.injEq] at first
        obtain ⟨rfl, rfl⟩ := first
        rw [List.nil_append, collectLoop_stops call (newStringUTF_marker decodes)]
        exact ⟨rfl, rfl⟩
      · simp [eog] at notEog
  | cons oracle rest ih =>
      intro s after texts pieces eog calls
      obtain ⟨text, next, strings, first, behind, rfl⟩ := completionCalls_cons calls
      have notEnd := pieces oracle (by simp)
      have more : strings ≠ [] := by
        rintro rfl
        simpa using completionCalls_length _ behind
      rcases completionLoop_cases oracle s with
        ⟨failure, _, call, _⟩ | ⟨ends, _⟩ | ⟨_, _, shown, reached, call, sampled⟩
      · simp [call] at first
      · simp [notEnd] at ends
      · rw [call, Prod.mk.injEq, Except.ok.injEq] at first
        obtain ⟨rfl, rfl⟩ := first
        rw [spellsMarker_cons, ← sampled.reads_marker_iff decodes, not_or, List.cons_append]
        by_cases ends : newStringUTF (cstr shown) = endMarker
        · rw [collectLoop_stops call ends]
          exact iff_of_false (not_endsAtEog_of_stops more) (fun both => both.1 ends)
        · have model := sampled.model
          have behindIff := ih reached after strings
            (by rw [model]; exact fun o member => pieces o (by simp [member]))
            (by rw [model]; exact eog) behind
          rw [model, sampled.cache] at behindIff
          rw [collectLoop_emits call ends, endsAtEog_cons_iff more, behindIff,
            and_iff_right ends]

/-- The flow ends exactly at the end of generation if and only if no ordinary
token completes a text that reads `[EOG]`. -/
theorem endsAtEog_iff (decodes : ∀ units, newStringUTF (modifiedUtf8 units) = units)
    {query : CString} {s started : LLMInference} {prompt : Bytes}
    (start : s.startCompletion query = (.ok prompt, started))
    {oracles : List LoopOracle} {last : LoopOracle}
    (pieces : ∀ oracle ∈ oracles, s.model.isEog oracle.sampledToken = false)
    (eog : s.model.isEog last.sampledToken = true) {texts : List Bytes} {after : LLMInference}
    (calls : started.completionCalls (oracles ++ [last]) = (.ok texts, after))
    (later : List LoopOracle) :
    EndsAtEog newStringUTF texts after later
        (collectResponse newStringUTF query (oracles ++ last :: later) s) ↔
      ¬ SpellsMarker newStringUTF s.model s.cacheResponseTokens oracles := by
  have frame : StartFrame query s started := by
    have whole := startCompletion_frame query s
    rwa [start] at whole
  unfold collectResponse
  rw [start]
  rw [← frame.model] at pieces eog ⊢
  rw [← frame.cache]
  exact collectLoop_endsAtEog_iff decodes oracles started after texts pieces eog calls

/-! ## The loop over strings and the loop over bytes -/

/-- If Kotlin reads `[EOG]` in those bytes only, the flow is the one over the bytes. -/
theorem collectLoop_responseLoop
    (reads : ∀ bytes, newStringUTF bytes = endMarker ↔ bytes = lit "[EOG]") :
    ∀ (oracles : List LoopOracle) (s : LLMInference),
    (collectLoop newStringUTF oracles s).emitted = (s.responseLoop oracles).emitted newStringUTF ∧
      (collectLoop newStringUTF oracles s).stopCalled.map Prod.fst =
        if (s.responseLoop oracles).exit.reachesStop then some (s.responseLoop oracles).state
        else none := by
  intro oracles
  induction oracles with
  | nil =>
      intro s
      exact ⟨rfl, rfl⟩
  | cons oracle rest ih =>
      intro s
      cases call : s.completionLoop oracle with
      | mk result after =>
          cases result with
          | error failure => simp [collectLoop, responseLoop, call, LoopResult.emitted,
              LoopExit.reachesStop]
          | ok text =>
              by_cases marker : cstr text = lit "[EOG]"
              · rw [collectLoop_stops call ((reads _).mpr marker)]
                cases eog : s.model.isEog oracle.sampledToken <;>
                  simp [responseLoop, call, marker, eog, LoopResult.emitted,
                    LoopExit.reachesStop]
              · obtain ⟨emitted, stops⟩ := ih after
                rw [collectLoop_emits call (fun read => marker ((reads _).mp read))]
                simp only [responseLoop, call, if_neg marker, LoopResult.emitted, List.map_cons]
                exact ⟨congrArg _ emitted, stops⟩

/-! ## Two replies -/

theorem endsAtEog_iff_cut :
    EndsAtEog decodeModified [[], [0xE4, 0xBD, 0xA0], lit "[EOG]"]
        (cutStarted.completionCalls ([answer 1, answer 2] ++ [answer 3])).2 []
        (collectResponse decodeModified (turnOf []).query ([answer 1, answer 2] ++ [answer 3])
          (splitSession cutPieces)) ↔
      ¬ SpellsMarker decodeModified (splitSession cutPieces).model
        (splitSession cutPieces).cacheResponseTokens [answer 1, answer 2] := by
  have start : ((splitSession cutPieces).startCompletion (turnOf []).query).1 =
      .ok (((splitSession cutPieces).prepared (turnOf []).query).applyTemplate.2.formattedMessages) := by
    decide +kernel
  have calls : (cutStarted.completionCalls ([answer 1, answer 2] ++ [answer 3])).1 =
      .ok [[], [0xE4, 0xBD, 0xA0], lit "[EOG]"] := by decide +kernel
  exact endsAtEog_iff decodeModified_modifiedUtf8 (Prod.ext start rfl) (by decide +kernel)
    (by decide +kernel) (Prod.ext calls rfl) []

/-- A token whose text is the marker, then a word. -/
def markerPieces : List Bytes := [lit "[EOG]", lit "Hi"]

def markerStarted : LLMInference :=
  ((splitSession markerPieces).startCompletion (turnOf []).query).2

/-- The flow stops at the first token, and the rest of the reply is not sampled. -/
theorem not_endsAtEog_named :
    openSession (splitOracle markerPieces) (smallArguments true) [] =
        .ok (splitSession markerPieces) ∧
      (markerStarted.completionCalls [answer 1, answer 2, answer 3]).1 =
        .ok [lit "[EOG]", lit "Hi", lit "[EOG]"] ∧
      (collectResponse decodeModified (turnOf []).query [answer 1, answer 2, answer 3]
        (splitSession markerPieces)).emitted = [] ∧
      ¬ EndsAtEog decodeModified [lit "[EOG]", lit "Hi", lit "[EOG]"]
        (markerStarted.completionCalls [answer 1, answer 2, answer 3]).2 []
        (collectResponse decodeModified (turnOf []).query [answer 1, answer 2, answer 3]
          (splitSession markerPieces)) := by
  have silent : (collectResponse decodeModified (turnOf []).query [answer 1, answer 2, answer 3]
      (splitSession markerPieces)).emitted = [] := by decide +kernel
  refine ⟨splitSession_opened _, by decide +kernel, silent, fun ends => ?_⟩
  have emitted := ends.emitted
  rw [silent] at emitted
  cases emitted

end MineGPT.Native
