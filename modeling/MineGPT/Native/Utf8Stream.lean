import MineGPT.Lib.Utf8Forms
import MineGPT.Native.Isolation

/-!
# Streaming a reply

On a NUL-free encoding `_isValidUtf8` accepts exactly the initial parts that
end between two characters.  So a call of `completionLoop` returns whole
characters or nothing, and what it keeps back starts where the last returned
text ended.  At the end of the reply nothing is kept back.
-/

set_option autoImplicit false

namespace MineGPT.Native

open MineGPT.Lib.ByteString MineGPT.Lib.Utf8 MineGPT.Chat LLMInference
open String (utf8EncodeChar)

/-! ## The scanner on an encoding -/

theorem numBytes_of_lead {b : UInt8} {num : Nat} (lead : Lead b num) : numBytes b = some num := by
  revert b
  match num with
  | 1 => exact forall_byte (by decide +kernel)
  | 2 => exact forall_byte (by decide +kernel)
  | 3 => exact forall_byte (by decide +kernel)
  | 4 => exact forall_byte (by decide +kernel)
  | 0 => exact fun _ lead => lead.elim
  | _ + 5 => exact fun _ lead => lead.elim

theorem scanUtf8_continuation {tail : Bytes} (each : ∀ b ∈ tail, Continuation b) (rest : Bytes) :
    scanUtf8 tail.length (tail ++ rest) = scanUtf8 0 rest := by
  induction tail with
  | nil => rfl
  | cons b tail ih =>
      have first : b &&& 0xC0 = 0x80 := each b (by simp)
      simp only [List.length_cons, List.cons_append, scanUtf8, first, ne_eq, not_true, if_false]
      exact ih fun c member => each c (by simp [member])

theorem scanUtf8_unfinished {tail : Bytes} (each : ∀ b ∈ tail, Continuation b) {pending : Nat}
    (more : tail.length < pending) : scanUtf8 pending tail = false := by
  induction tail generalizing pending with
  | nil =>
      cases pending with
      | zero => simp at more
      | succ pending => rfl
  | cons b tail ih =>
      cases pending with
      | zero => simp at more
      | succ pending =>
          have first : b &&& 0xC0 = 0x80 := each b (by simp)
          simp only [scanUtf8, first, ne_eq, not_true, if_false]
          exact ih (fun c member => each c (by simp [member])) (by simpa using more)

theorem isValidUtf8_form_append {form : Bytes} (shape : Form form) (noNul : 0 ∉ form)
    (rest : Bytes) : isValidUtf8 (form ++ rest) = isValidUtf8 rest := by
  obtain ⟨lead, tail, rfl, announces, each⟩ := shape
  have nonzero : lead ≠ 0 := by
    rintro rfl
    simp at noNul
  rw [List.cons_append, isValidUtf8, scanUtf8, if_neg nonzero, numBytes_of_lead announces]
  exact scanUtf8_continuation each rest

theorem isValidUtf8_encode_append {done : List Char} (noNul : 0 ∉ encode done) (rest : Bytes) :
    isValidUtf8 (encode done ++ rest) = isValidUtf8 rest := by
  induction done with
  | nil => rfl
  | cons c done ih =>
      rw [encode_cons, List.mem_append, not_or] at noNul
      rw [encode_cons, List.append_assoc, isValidUtf8_form_append (form_char c) noNul.1,
        ih noNul.2]

theorem isValidUtf8_encode {text : List Char} (noNul : 0 ∉ encode text) :
    isValidUtf8 (encode text) = true := by
  have scanned := isValidUtf8_encode_append noNul []
  rwa [List.append_nil, isValidUtf8_nil] at scanned

theorem isValidUtf8_inside {c : Char} {inside more : Bytes} {b : UInt8}
    (sequence : utf8EncodeChar c = inside ++ b :: more) (noNul : 0 ∉ inside)
    (begun : inside ≠ []) : isValidUtf8 inside = false := by
  obtain ⟨lead, tail, shape, announces, each⟩ := utf8EncodeChar_shape c
  cases inside with
  | nil => exact absurd rfl begun
  | cons first inside =>
      rw [shape, List.cons_append, List.cons.injEq] at sequence
      obtain ⟨rfl, rfl⟩ := sequence
      have nonzero : lead ≠ 0 := by
        rintro rfl
        simp at noNul
      rw [isValidUtf8, scanUtf8, if_neg nonzero, numBytes_of_lead announces]
      refine scanUtf8_unfinished (fun b member => each b (by simp [member])) ?_
      simp

theorem exists_encode_of_isValidUtf8 {text : List Char} {bytes rest : Bytes}
    (cut : encode text = bytes ++ rest) (noNul : 0 ∉ encode text)
    (accepted : isValidUtf8 bytes = true) :
    ∃ done todo, text = done ++ todo ∧ bytes = encode done ∧ encode todo = rest := by
  obtain ⟨done, todo, inside, split, front, back, ends⟩ := exists_boundary text bytes rest cut
  rw [cut, List.mem_append, front, List.mem_append, not_or, not_or] at noNul
  rcases ends with rfl | ⟨c, later, b, more, _, sequence⟩
  · exact ⟨done, todo, split, by simpa using front, by simpa using back⟩
  · by_cases begun : inside = []
    · subst begun
      exact ⟨done, todo, split, by simpa using front, by simpa using back⟩
    · rw [front, isValidUtf8_encode_append noNul.1.1,
        isValidUtf8_inside sequence noNul.1.2 begun] at accepted
      cases accepted

/-! ## The calls -/

namespace LLMInference

/-- Successive `completionLoop` calls, up to the first one that throws. -/
def completionCalls : List LoopOracle → LLMInference → Except Failure (List Bytes) × LLMInference
  | [], s => (.ok [], s)
  | oracle :: rest, s =>
    match s.completionLoop oracle with
    | (.error failure, after) => (.error failure, after)
    | (.ok text, next) =>
      match completionCalls rest next with
      | (.error failure, after) => (.error failure, after)
      | (.ok texts, after) => (.ok (text :: texts), after)

theorem Sampled.boundary {s t : LLMInference} {piece text : Bytes} (sampled : Sampled s t piece text)
    {chars : List Char} {later : Bytes} (noNul : 0 ∉ encode chars)
    (reply : s.cacheResponseTokens ++ (piece ++ later) = encode chars) :
    ∃ done todo, chars = done ++ todo ∧ text = encode done ∧
      t.cacheResponseTokens ++ later = encode todo := by
  have cache := sampled.cache
  simp only [residue, List.foldl_cons, List.foldl_nil] at cache
  have conserved := sampled.conserved
  cases accepted : isValidUtf8 (s.cacheResponseTokens ++ piece) with
  | true =>
      rw [accepted, if_pos rfl] at cache
      rw [cache, List.append_nil] at conserved
      rw [← List.append_assoc] at reply
      obtain ⟨done, todo, split, front, back⟩ :=
        exists_encode_of_isValidUtf8 reply.symm noNul accepted
      refine ⟨done, todo, split, conserved.symm.trans front, ?_⟩
      rw [cache, List.nil_append, back]
  | false =>
      rw [accepted, if_neg (by decide)] at cache
      rw [cache] at conserved
      have silent : text = [] := List.self_eq_append_left.mp conserved
      refine ⟨[], chars, rfl, by simp [silent], ?_⟩
      rw [cache, List.append_assoc, reply]

theorem settled_nil {s : LLMInference} (settled : s.Settled) {text : List Char}
    (noNul : 0 ∉ encode text) (whole : s.cacheResponseTokens = encode text) : text = [] := by
  rcases settled with empty | refused
  · exact encode_eq_nil (whole.symm.trans empty)
  · rw [whole, isValidUtf8_encode noNul] at refused
    cases refused

/-- A reply whose pieces are those of `oracles`, ended by the token of `last`. -/
structure Replied (s : LLMInference) (oracles : List LoopOracle) (last : LoopOracle)
    (reply : Bytes) (texts : List Bytes) (after : LLMInference) : Prop where
  clean : StartsClean s
  pieces : ∀ oracle ∈ oracles, s.model.isEog oracle.sampledToken = false
  eog : s.model.isEog last.sampledToken = true
  cut : (oracles.map fun oracle => s.model.commonTokenToPiece oracle.sampledToken).flatten = reply
  calls : s.completionCalls (oracles ++ [last]) = (.ok texts, after)

theorem completionCalls_cons {oracle : LoopOracle} {rest : List LoopOracle} {s after : LLMInference}
    {texts : List Bytes} (calls : s.completionCalls (oracle :: rest) = (.ok texts, after)) :
    ∃ text next later, s.completionLoop oracle = (.ok text, next) ∧
      next.completionCalls rest = (.ok later, after) ∧ texts = text :: later := by
  simp only [completionCalls] at calls
  split at calls
  · simp at calls
  · rename_i text next first
    split at calls
    · simp at calls
    · rename_i later reached behind
      simp only [Prod.mk.injEq, Except.ok.injEq] at calls
      obtain ⟨rfl, rfl⟩ := calls
      exact ⟨text, next, later, first, behind, rfl⟩

theorem completionCalls_encode {last : LoopOracle} :
    ∀ (oracles : List LoopOracle) (s after : LLMInference) (texts : List Bytes)
      (chars : List Char), s.Settled → 0 ∉ encode chars →
    (∀ oracle ∈ oracles, s.model.isEog oracle.sampledToken = false) →
    s.model.isEog last.sampledToken = true →
    s.cacheResponseTokens ++ (oracles.map fun oracle =>
      s.model.commonTokenToPiece oracle.sampledToken).flatten = encode chars →
    s.completionCalls (oracles ++ [last]) = (.ok texts, after) →
    ∃ groups : List (List Char), texts = groups.map encode ++ [lit "[EOG]"] ∧ groups.flatten = chars ∧
      after.cacheResponseTokens = [] ∧
      after.messages = s.messages ++
        [assistantMessage (CString.ofBytes (s.response ++ encode chars))] := by
  intro oracles
  -- induction on the sampled pieces; what is kept back starts the rest of the reply
  induction oracles with
  | nil =>
      intro s after texts chars settled noNul _ eog reply calls
      obtain ⟨text, next, later, first, behind, rfl⟩ := completionCalls_cons calls
      have done : chars = [] := settled_nil settled noNul (by simpa using reply)
      subst done
      rcases completionLoop_cases last s with
        ⟨failure, _, call, _⟩ | ⟨_, _, _, call, ended⟩ | ⟨notEog, _⟩
      · simp [call] at first
      · rw [call, Prod.mk.injEq, Except.ok.injEq] at first
        obtain ⟨rfl, rfl⟩ := first
        simp only [completionCalls, Prod.mk.injEq, Except.ok.injEq] at behind
        obtain ⟨rfl, rfl⟩ := behind
        refine ⟨[], rfl, rfl, ?_, by simp [ended.messages, assistantMessage]⟩
        rw [ended.cache]
        simpa using reply
      · simp [eog] at notEog
  | cons oracle rest ih =>
      intro s after texts chars settled noNul pieces eog reply calls
      obtain ⟨text, next, later, first, behind, rfl⟩ := completionCalls_cons calls
      have notEnd := pieces oracle (by simp)
      rcases completionLoop_cases oracle s with
        ⟨failure, _, call, _⟩ | ⟨ends, _⟩ | ⟨_, _, _, _, call, sampled⟩
      · simp [call] at first
      · simp [notEnd] at ends
      · rw [call, Prod.mk.injEq, Except.ok.injEq] at first
        obtain ⟨rfl, rfl⟩ := first
        rw [List.map_cons, List.flatten_cons] at reply
        obtain ⟨done, todo, rfl, rfl, left⟩ := sampled.boundary noNul reply
        rw [encode_append, List.mem_append, not_or] at noNul
        obtain ⟨groups, rfl, rfl, cache, messages⟩ :=
          ih _ after later todo sampled.settled noNul.2
            (by rw [sampled.model]; exact fun o member => pieces o (by simp [member]))
            (by rw [sampled.model]; exact eog) (by rw [sampled.model]; exact left) behind
        refine ⟨done :: groups, rfl, rfl, cache, ?_⟩
        simp only [messages, sampled.messages, sampled.response, encode_append, List.append_assoc]

end LLMInference

theorem valid_marker : Valid (lit "[EOG]") := ⟨['[', 'E', 'O', 'G', ']'], by decide⟩

/-- However a NUL-free UTF-8 reply is cut into pieces, the returned strings are
valid and together the reply, nothing is kept back, and the reply is stored. -/
theorem reply_streamed {reply : Bytes} (noNul : 0 ∉ reply) (valid : Valid reply)
    {s after : LLMInference} {oracles : List LoopOracle} {last : LoopOracle} {texts : List Bytes}
    (run : Replied s oracles last reply texts after) :
    (∀ text ∈ texts, Valid text) ∧ texts.getLast? = some (lit "[EOG]") ∧
    texts.dropLast.flatten = reply ∧ after.cacheResponseTokens = [] ∧
    after.messages = s.messages ++ [assistantMessage ⟨reply, noNul⟩] ∧
    ∀ (t reached : LLMInference) (others : List LoopOracle) (final : LoopOracle)
      (strings : List Bytes), Replied t others final reply strings reached →
      strings.dropLast.flatten = texts.dropLast.flatten ∧
      reached.messages.drop t.messages.length = after.messages.drop s.messages.length := by
  have whole : ∀ (t reached : LLMInference) (others : List LoopOracle) (final : LoopOracle)
      (strings : List Bytes), Replied t others final reply strings reached →
      (∀ text ∈ strings, Valid text) ∧ strings.getLast? = some (lit "[EOG]") ∧
      strings.dropLast.flatten = reply ∧ reached.cacheResponseTokens = [] ∧
      reached.messages = t.messages ++ [assistantMessage ⟨reply, noNul⟩] := by
    intro t reached others final strings replied
    obtain ⟨chars, rfl⟩ := valid
    obtain ⟨groups, rfl, rfl, cache, messages⟩ :=
      completionCalls_encode others t reached strings chars (Or.inl replied.clean.cache) noNul
        replied.pieces replied.eog (by rw [replied.clean.cache, List.nil_append, replied.cut])
        replied.calls
    have stored : CString.ofBytes (t.response ++ encode groups.flatten) =
        ⟨encode groups.flatten, noNul⟩ := by
      apply CString.ext
      rw [replied.clean.response, List.nil_append, CString.ofBytes_bytes, cstr_eq_self noNul]
    refine ⟨?_, by simp, ?_, cache, by rw [messages, stored]⟩
    · intro text member
      simp only [List.mem_append, List.mem_map, List.mem_singleton] at member
      rcases member with ⟨group, _, rfl⟩ | rfl
      · exact valid_encode group
      · exact valid_marker
    · rw [List.dropLast_concat, encode_flatten]
  obtain ⟨each, marker, text, cache, messages⟩ := whole s after oracles last texts run
  refine ⟨each, marker, text, cache, messages, ?_⟩
  intro t reached others final strings replied
  obtain ⟨_, _, sameText, _, sameMessages⟩ := whole t reached others final strings replied
  exact ⟨sameText.trans text.symm, by rw [sameMessages, messages, List.drop_left, List.drop_left]⟩

/-! ## A model whose tokens are given pieces

Token 0 stands for a whole prompt, the next tokens have the given pieces and
the last one ends the reply. -/

def splitModel (pieces : List Bytes) : LlamaModel where
  nTokens := pieces.length + 2
  commonTokenize := fun _ => .ok [0]
  commonTokenToPiece := fun token => if token ≤ 0 then [] else pieces.getD (token - 1).toNat []
  isEog := fun token => token = pieces.length + 1
  chatTemplate := some chatmlName
  nCtxTrain := 32
  causalAttn := true
  recurrent := false

def splitSession (pieces : List Bytes) : LLMInference :=
  loaded (splitModel pieces) (llamaContext (splitModel pieces) (paramNCtx 32)) (smallArguments true)

def splitOracle (pieces : List Bytes) : LoadOracle :=
  { model := some (splitModel pieces), contextAllocated := true }

theorem splitSession_opened (pieces : List Bytes) :
    openSession (splitOracle pieces) (smallArguments true) [] = .ok (splitSession pieces) :=
  openSession_eq (fun unsized => absurd unsized.1 (by decide : paramNCtx 32 ≠ 0)) []

/-- U+4F60 cut behind its first byte. -/
def cutPieces : List Bytes := [[0xE4], [0xBD, 0xA0]]

def cutStarted : LLMInference := ((splitSession cutPieces).startCompletion (turnOf []).query).2

theorem reply_streamed_cut :
    ((cutStarted.completionCalls [answer 1, answer 2, answer 3]).1 =
      .ok [[], [0xE4, 0xBD, 0xA0], lit "[EOG]"]) ∧
    (cutStarted.completionCalls [answer 1, answer 2, answer 3]).2.cacheResponseTokens = [] := by
  have calls : (cutStarted.completionCalls [answer 1, answer 2, answer 3]).1 =
      .ok [[], [0xE4, 0xBD, 0xA0], lit "[EOG]"] := by decide +kernel
  have run : Replied cutStarted [answer 1, answer 2] (answer 3) [0xE4, 0xBD, 0xA0]
      [[], [0xE4, 0xBD, 0xA0], lit "[EOG]"]
      (cutStarted.completionCalls [answer 1, answer 2, answer 3]).2 :=
    ⟨⟨by decide +kernel, by decide +kernel⟩, by decide +kernel, by decide +kernel,
      by decide +kernel, Prod.ext calls rfl⟩
  exact ⟨calls, (reply_streamed (by decide) ⟨[Char.ofNat 0x4F60], by decide +kernel⟩ run).2.2.2.1⟩

end MineGPT.Native
