import MineGPT.Lib.ModifiedUtf8
import MineGPT.Native.Utf8Stream

/-!
# Text across JNI

`completionLoop` hands its string to `NewStringUTF`, which expects Modified
UTF-8, and `getResponse` emits what it makes of it until it reads `[EOG]`.  A
reply arrives whole exactly when it has no character above U+FFFF and none of
its pieces reads `[EOG]`.
-/

set_option autoImplicit false

namespace MineGPT.Native

open MineGPT.Lib.ByteString MineGPT.Lib.Utf8 MineGPT.Lib.ModifiedUtf8 MineGPT.Chat LLMInference
open String (utf8EncodeChar)

def LoopResult.marker (r : LoopResult) : List Bytes :=
  match r.exit with
  | .endOfGeneration => [lit "[EOG]"]
  | .inBand => [r.closing]
  | _ => []

/-- What `NewStringUTF` reads of the strings it is called with. -/
def LoopResult.passed (r : LoopResult) : List Bytes := (r.chunks ++ r.marker).map cstr

def LoopResult.emitted (newStringUTF : Bytes → List UInt16) (r : LoopResult) :
    List (List UInt16) :=
  r.chunks.map fun text => newStringUTF (cstr text)

/-- Every string given to `NewStringUTF` is well-formed, and what is emitted is
the reply. -/
structure TextSurvives (newStringUTF : Bytes → List UInt16) (chars : List Char)
    (r : LoopResult) : Prop where
  wellFormed : ∀ text ∈ r.passed, WellFormed text
  emitted : (r.emitted newStringUTF).flatten = utf16 chars

theorem wellFormed_marker : WellFormed (lit "[EOG]") :=
  ⟨[0x5B, 0x45, 0x4F, 0x47, 0x5D], by decide +kernel⟩

/-! ## Where the loop ends -/

/-- How a reply cut into pieces goes through the loop: whole characters come
out, up to the end or to a piece that reads `[EOG]`. -/
structure LoopText (chars : List Char) (pieces : List Bytes) (r : LoopResult)
    (groups : List (List Char)) (rest : List Char) : Prop where
  shown : r.chunks = groups.map encode
  split : chars = groups.flatten ++ rest
  ends : (r.exit = .endOfGeneration ∧ rest = [] ∧ lit "[EOG]" ∉ pieces) ∨
    (r.exit = .inBand ∧ rest ≠ [] ∧ r.closing = lit "[EOG]" ∧ lit "[EOG]" ∈ pieces)

/-- No character is unfinished where a piece reads `[EOG]`. -/
theorem pending_nil_of_marker {s : LLMInference} (settled : s.Settled) {chars : List Char}
    {later : Bytes} (noNul : 0 ∉ encode chars)
    (reply : s.cacheResponseTokens ++ (lit "[EOG]" ++ later) = encode chars) :
    s.cacheResponseTokens = [] := by
  obtain ⟨done, todo, inside, _, front, back, ends⟩ := exists_boundary _ _ _ reply.symm
  rw [← reply, List.mem_append, front, List.mem_append, not_or, not_or] at noNul
  have boundary : inside = [] := by
    rcases ends with empty | ⟨c, rest, b, more, rfl, sequence⟩
    · exact empty
    · by_contra begun
      have continuation := continuation_of_inside sequence begun
      rw [encode_cons, sequence, List.append_assoc, List.append_cancel_left_eq,
        show lit "[EOG]" = 0x5B :: lit "EOG]" by decide +kernel, List.cons_append,
        List.cons_append, List.cons.injEq] at back
      rw [back.1] at continuation
      exact absurd continuation (by decide)
  rw [boundary, List.append_nil] at front
  rcases settled with empty | refused
  · exact empty
  · rw [front, isValidUtf8_encode noNul.1.1] at refused
    cases refused

/-- A returned string reads `[EOG]` exactly when the piece does. -/
theorem LLMInference.Sampled.marker_iff {s t : LLMInference} {piece text : Bytes}
    (sampled : Sampled s t piece text) (settled : s.Settled) {chars : List Char} {later : Bytes}
    (noNul : 0 ∉ encode chars)
    (reply : s.cacheResponseTokens ++ (piece ++ later) = encode chars) :
    text = lit "[EOG]" ↔ piece = lit "[EOG]" := by
  have conserved := sampled.conserved
  constructor
  · rintro rfl
    rw [sampled.flushed (by decide), List.append_nil] at conserved
    have empty := settled.nil_of_marker (by rw [conserved]; decide)
    rwa [empty, List.nil_append] at conserved
  · rintro rfl
    have empty := pending_nil_of_marker settled noNul reply
    have accepted : isValidUtf8 (lit "[EOG]") = true := by decide +kernel
    have cache := sampled.cache
    simp only [residue, List.foldl_cons, List.foldl_nil, empty, List.nil_append, accepted,
      if_true] at cache
    rw [empty, cache, List.nil_append, List.append_nil] at conserved
    exact conserved.symm

theorem responseLoop_inBand {oracle : LoopOracle} {rest : List LoopOracle} {s after : LLMInference}
    {text : Bytes} (call : s.completionLoop oracle = (.ok text, after))
    (notEog : s.model.isEog oracle.sampledToken = false) (marker : cstr text = lit "[EOG]") :
    s.responseLoop (oracle :: rest) =
      { chunks := [], closing := text
        pieces := [s.model.commonTokenToPiece oracle.sampledToken]
        decoded := s.decodedPieces oracle, exit := .inBand, state := after } := by
  simp [responseLoop, call, notEog, marker]

theorem responseLoop_emits {oracle : LoopOracle} {rest : List LoopOracle} {s after : LLMInference}
    {text : Bytes} (call : s.completionLoop oracle = (.ok text, after))
    (notEog : s.model.isEog oracle.sampledToken = false) (other : cstr text ≠ lit "[EOG]") :
    s.responseLoop (oracle :: rest) =
      { after.responseLoop rest with
        chunks := text :: (after.responseLoop rest).chunks
        pieces := [s.model.commonTokenToPiece oracle.sampledToken] ++
          (after.responseLoop rest).pieces
        decoded := s.decodedPieces oracle ++ (after.responseLoop rest).decoded } := by
  simp [responseLoop, call, notEog, other]

theorem responseLoop_text {last : LoopOracle} :
    ∀ (oracles : List LoopOracle) (s : LLMInference) (chars : List Char),
    s.Settled → 0 ∉ encode chars →
    (∀ oracle ∈ oracles, s.model.isEog oracle.sampledToken = false) →
    s.model.isEog last.sampledToken = true →
    s.cacheResponseTokens ++ (oracles.map fun oracle =>
      s.model.commonTokenToPiece oracle.sampledToken).flatten = encode chars →
    (s.responseLoop (oracles ++ [last])).exit.reachesStop = true →
    ∃ groups rest, LoopText chars
      (oracles.map fun oracle => s.model.commonTokenToPiece oracle.sampledToken)
      (s.responseLoop (oracles ++ [last])) groups rest := by
  intro oracles
  -- induction on the sampled pieces
  induction oracles with
  | nil =>
      intro s chars settled noNul _ eog reply reached
      have done : chars = [] := settled_nil settled noNul (by simpa using reply)
      rcases completionLoop_cases last s with
        ⟨failure, _, call, _⟩ | ⟨_, _, _, call, ended⟩ | ⟨notEog, _⟩
      · simp [responseLoop, call, LoopExit.reachesStop] at reached
      · refine ⟨[], [], ?_, by simp [done], Or.inl ⟨?_, rfl, by simp⟩⟩
        · simp [responseLoop, call, cstr_marker]
        · simp [responseLoop, call, cstr_marker, eog]
      · simp [eog] at notEog
  | cons oracle rest ih =>
      intro s chars settled noNul pieces eog reply reached
      have notEnd := pieces oracle (by simp)
      rcases completionLoop_cases oracle s with
        ⟨failure, _, call, _⟩ | ⟨ends, _⟩ | ⟨_, _, text, after, call, sampled⟩
      · simp [responseLoop, call, LoopExit.reachesStop] at reached
      · simp [notEnd] at ends
      · rw [List.map_cons, List.flatten_cons] at reply
        obtain ⟨done, todo, rfl, rfl, left⟩ := sampled.boundary noNul reply
        have marker := sampled.marker_iff settled noNul reply
        rw [encode_append, List.mem_append, not_or] at noNul
        have visible : cstr (encode done) = encode done := cstr_eq_self noNul.1
        by_cases ends : encode done = lit "[EOG]"
        · have something : done ++ todo ≠ [] := by
            intro empty
            rw [(List.append_eq_nil_iff.mp empty).1, encode_nil] at ends
            cases ends
          rw [List.cons_append, responseLoop_inBand call notEnd (visible.trans ends)]
          exact ⟨[], done ++ todo, rfl, rfl,
            Or.inr ⟨rfl, something, ends, by simp [marker.mp ends]⟩⟩
        · rw [List.cons_append, responseLoop_emits call notEnd (by rwa [visible])] at reached ⊢
          have model := sampled.model
          obtain ⟨groups, behind, text⟩ :=
            ih after todo sampled.settled noNul.2
              (by rw [model]; exact fun o member => pieces o (by simp [member]))
              (by rw [model]; exact eog) (by rw [model]; exact left) reached
          rw [model] at text
          refine ⟨done :: groups, behind, by simp [text.shown], by simp [text.split], ?_⟩
          have other : lit "[EOG]" ≠ s.model.commonTokenToPiece oracle.sampledToken :=
            fun same => ends (marker.mpr same.symm)
          simpa [other] using text.ends

/-! ## What arrives -/

theorem nonzero_of_split {chars rest : List Char} {groups : List (List Char)}
    (nonzero : ∀ c ∈ chars, c.toNat ≠ 0) (split : chars = groups.flatten ++ rest) :
    ∀ group ∈ groups, ∀ c ∈ group, c.toNat ≠ 0 := by
  intro group member c here
  apply nonzero
  rw [split, List.mem_append, List.mem_flatten]
  exact Or.inl ⟨group, member, here⟩

theorem LoopText.passed_wellFormed_iff {chars : List Char} {pieces : List Bytes} {r : LoopResult}
    {groups : List (List Char)} {rest : List Char} (text : LoopText chars pieces r groups rest)
    (nonzero : ∀ c ∈ chars, c.toNat ≠ 0) :
    (∀ passed ∈ r.passed, WellFormed passed) ↔
      ∀ c ∈ groups.flatten, c.toNat < 0x10000 := by
  have inGroup := nonzero_of_split nonzero text.split
  have marker : r.marker = [lit "[EOG]"] := by
    rcases text.ends with ⟨eog, _⟩ | ⟨inBand, _, closing, _⟩
    · simp [LoopResult.marker, eog]
    · simp [LoopResult.marker, inBand, closing]
  have passed : r.passed = groups.map encode ++ [lit "[EOG]"] := by
    rw [LoopResult.passed, marker, text.shown, List.map_append, List.map_map, List.map_cons,
      cstr_marker, List.map_nil]
    congr 1
    apply List.map_congr_left
    intro group member
    exact cstr_eq_self (zero_notMem_encode (inGroup group member))
  rw [passed]
  constructor
  · intro each c member
    obtain ⟨group, inGroups, here⟩ := List.mem_flatten.mp member
    have wellFormed := each (encode group)
      (List.mem_append_left _ (List.mem_map.mpr ⟨group, inGroups, rfl⟩))
    exact (wellFormed_encode_iff (inGroup group inGroups)).mp wellFormed c here
  · intro bmp string member
    simp only [List.mem_append, List.mem_map, List.mem_singleton] at member
    rcases member with ⟨group, inGroups, rfl⟩ | rfl
    · exact (wellFormed_encode_iff (inGroup group inGroups)).mpr fun c here =>
        bmp c (List.mem_flatten.mpr ⟨group, inGroups, here⟩)
    · exact wellFormed_marker

theorem utf16_flatten (groups : List (List Char)) :
    (groups.map utf16).flatten = utf16 groups.flatten := by
  induction groups with
  | nil => rfl
  | cons group rest ih => simp [ih]

theorem LoopText.emitted_eq {newStringUTF : Bytes → List UInt16}
    (decodes : ∀ units, newStringUTF (modifiedUtf8 units) = units)
    {chars : List Char} {pieces : List Bytes} {r : LoopResult}
    {groups : List (List Char)} {rest : List Char} (text : LoopText chars pieces r groups rest)
    (nonzero : ∀ c ∈ chars, c.toNat ≠ 0) (bmp : ∀ c ∈ groups.flatten, c.toNat < 0x10000) :
    (r.emitted newStringUTF).flatten = utf16 groups.flatten := by
  have inGroup := nonzero_of_split nonzero text.split
  rw [LoopResult.emitted, text.shown, List.map_map, ← utf16_flatten]
  congr 1
  apply List.map_congr_left
  intro group member
  have low : ∀ c ∈ group, c.toNat < 0x10000 := fun c here =>
    bmp c (List.mem_flatten.mpr ⟨group, member, here⟩)
  rw [Function.comp_apply, cstr_eq_self (zero_notMem_encode (inGroup group member)),
    ← modifiedUtf8_utf16 (inGroup group member) low, decodes]

/-- A reply that went through the loop arrives whole exactly when all its
characters are below U+10000 and no piece reads `[EOG]`. -/
theorem text_survives_iff {newStringUTF : Bytes → List UInt16}
    (decodes : ∀ units, newStringUTF (modifiedUtf8 units) = units)
    {s : LLMInference} (nothingPending : s.cacheResponseTokens = [])
    {oracles : List LoopOracle} {last : LoopOracle}
    (pieces : ∀ oracle ∈ oracles, s.model.isEog oracle.sampledToken = false)
    (eog : s.model.isEog last.sampledToken = true)
    {chars : List Char} (nonzero : ∀ c ∈ chars, c.toNat ≠ 0)
    (cut : (oracles.map fun oracle =>
      s.model.commonTokenToPiece oracle.sampledToken).flatten = encode chars)
    (reached : (s.responseLoop (oracles ++ [last])).exit.reachesStop = true) :
    TextSurvives newStringUTF chars (s.responseLoop (oracles ++ [last])) ↔
      (∀ c ∈ chars, c.toNat < 0x10000) ∧
      lit "[EOG]" ∉ oracles.map fun oracle =>
        s.model.commonTokenToPiece oracle.sampledToken := by
  obtain ⟨groups, rest, text⟩ :=
    responseLoop_text oracles s chars (Or.inl nothingPending) (zero_notMem_encode nonzero) pieces
      eog (by rw [nothingPending, List.nil_append, cut]) reached
  have wellFormed := text.passed_wellFormed_iff nonzero
  constructor
  · rintro ⟨each, emitted⟩
    have bmp := wellFormed.mp each
    rw [text.emitted_eq decodes nonzero bmp, text.split, utf16_append] at emitted
    have nothing : rest = [] := utf16_eq_nil (List.self_eq_append_right.mp emitted)
    rcases text.ends with ⟨_, _, absent⟩ | ⟨_, something, _⟩
    · refine ⟨?_, absent⟩
      rw [text.split, nothing, List.append_nil]
      exact bmp
    · exact absurd nothing something
  · rintro ⟨bmp, absent⟩
    rcases text.ends with ⟨_, nothing, _⟩ | ⟨_, _, _, present⟩
    · have whole := text.split
      rw [nothing, List.append_nil] at whole
      rw [whole] at bmp
      refine ⟨wellFormed.mpr bmp, ?_⟩
      rw [text.emitted_eq decodes nonzero bmp, ← whole]
    · exact absurd present absent

theorem text_survives_iff_cut :
    TextSurvives decodeModified [Char.ofNat 0x4F60]
        (cutStarted.responseLoop ([answer 1, answer 2] ++ [answer 3])) ↔
      (∀ c ∈ [Char.ofNat 0x4F60], c.toNat < 0x10000) ∧ lit "[EOG]" ∉ cutPieces := by
  have nonzero : ∀ c ∈ [Char.ofNat 0x4F60], c.toNat ≠ 0 := by
    intro c member
    rw [List.mem_singleton.mp member]
    decide
  exact text_survives_iff decodeModified_modifiedUtf8 (by decide +kernel) (by decide +kernel)
    (by decide +kernel) nonzero (by decide +kernel) (by decide +kernel)

def facePieces : List Bytes := [[0xF0, 0x9F, 0x98, 0x80]]

def faceStarted : LLMInference := ((splitSession facePieces).startCompletion (turnOf []).query).2

/-- `NewStringUTF` is given the four-byte form. -/
theorem not_text_survives_face :
    openSession (splitOracle facePieces) (smallArguments true) [] = .ok (splitSession facePieces) ∧
      facePieces.flatten = encode [Char.ofNat 0x1F600] ∧
      (faceStarted.responseLoop [answer 1, answer 2]).exit = .endOfGeneration ∧
      ∀ newStringUTF : Bytes → List UInt16,
        ¬ TextSurvives newStringUTF [Char.ofNat 0x1F600]
          (faceStarted.responseLoop [answer 1, answer 2]) := by
  refine ⟨splitSession_opened _, by decide +kernel, by decide +kernel, fun newStringUTF survives => ?_⟩
  have given : [0xF0, 0x9F, 0x98, 0x80] ∈
      (faceStarted.responseLoop [answer 1, answer 2]).passed := by decide +kernel
  have small := (survives.wellFormed _ given).lt 0xF0 (by decide)
  exact absurd small (by decide)

end MineGPT.Native
