import MineGPT.Lib.ModifiedUtf8
import MineGPT.Native.Run

/-!
# Text from Kotlin

`addChatMessage` and `startCompletion` copy what `GetStringUTFChars` returns,
which is Modified UTF-8, and llama.cpp reads the copy as UTF-8.  The two agree
exactly on the texts without U+0000 and without a character above U+FFFF.
-/

set_option autoImplicit false

namespace MineGPT.Native

open MineGPT.Lib.ByteString MineGPT.Lib.Utf8 MineGPT.Lib.ModifiedUtf8 MineGPT.Chat LLMInference

section Strings

variable (getStringUTFChars : List UInt16 → Bytes)

/-- `strdup` of the array that `GetStringUTFChars` returns. -/
def jstringCstr (string : List UInt16) : CString := CString.ofBytes (getStringUTFChars string)

def jniAddChatMessage (message role : List UInt16) (s : LLMInference) : LLMInference :=
  s.addChatMessage (jstringCstr getStringUTFChars message) (jstringCstr getStringUTFChars role)

def jniStartCompletion (prompt : List UInt16) (s : LLMInference) :
    Except Failure Bytes × LLMInference :=
  s.startCompletion (jstringCstr getStringUTFChars prompt)

/-- The message is stored with the UTF-8 encoding of the text. -/
def StoredAsUtf8 (text : List Char) (role : CString) (s t : LLMInference) : Prop :=
  ∃ content : CString, content.bytes = encode text ∧
    t.messages = s.messages ++ [{ role := role, content := content }]

/-- The prompt is the rendering of the messages behind the offset, the last of
them the query in UTF-8.  The query is in it, as far as the template does not trim
it, if the offset is not behind the text of the earlier messages. -/
structure PromptedAsUtf8 (text : List Char) (s : LLMInference) (prompt : Bytes) : Prop where
  rendered : ∃ content : CString, content.bytes = encode text ∧
    prompt = (render (llmChatDetectTemplate s.chatTemplate.bytes)
      (s.messages ++ [userMessage content]) true).drop s.promptOffset.toNat
  shown : s.promptOffset ≤
      (render (llmChatDetectTemplate s.chatTemplate.bytes) s.messages false).length →
    trim (encode text) <:+: prompt

structure ReachesTokenizer (text : List Char) : Prop where
  added : ∀ (s : LLMInference) (role : List UInt16),
    StoredAsUtf8 text (jstringCstr getStringUTFChars role) s
      (jniAddChatMessage getStringUTFChars (utf16 text) role s)
  asked : ∀ s : LLMInference,
    StoredAsUtf8 text roleUser s (jniStartCompletion getStringUTFChars (utf16 text) s).2
  prompted : ∀ (s : LLMInference) (prompt : Bytes),
    (jniStartCompletion getStringUTFChars (utf16 text) s).1 = .ok prompt →
    PromptedAsUtf8 text s prompt

end Strings

/-- What `startCompletion` hands to the tokenizer, if it returns. -/
theorem startCompletion_prompt {query : CString} {s : LLMInference} {prompt : Bytes}
    (returned : (s.startCompletion query).1 = .ok prompt) :
    llmChatDetectTemplate s.chatTemplate.bytes ≠ .unknown ∧
      prompt = (render (llmChatDetectTemplate s.chatTemplate.bytes)
        (s.messages ++ [userMessage query]) true).drop s.promptOffset.toNat := by
  replace returned := slicePrompt_of_returned returned
  have supported : llmChatDetectTemplate s.chatTemplate.bytes ≠ .unknown := by
    intro unknown
    rw [slicePrompt_unknown unknown] at returned
    cases returned
  rw [slicePrompt_detected supported rfl] at returned
  split at returned
  · exact ⟨supported, (Except.ok.inj returned).symm⟩
  · cases returned

theorem trim_infix_drop {kind : LlmChatTemplate} (supported : kind ≠ .unknown)
    (h : List LlamaChatMessage) (query : CString) {offset : Nat}
    (before : offset ≤ (render kind h false).length) :
    trim query.bytes <:+: (render kind (h ++ [userMessage query]) true).drop offset := by
  obtain ⟨generation, _, full⟩ := exists_generation kind
  obtain ⟨added, split, inside⟩ := render_user_addsPart supported query h
  have history : render kind (h ++ [userMessage query]) false = render kind h false ++ added := split
  rw [full, history, List.append_assoc, List.drop_append_of_le_length before]
  exact List.infix_append_of_infix_right (List.infix_append_of_infix_left inside)

theorem promptedAsUtf8 {query : CString} {text : List Char} (content : query.bytes = encode text)
    {s : LLMInference} {prompt : Bytes} (returned : (s.startCompletion query).1 = .ok prompt) :
    PromptedAsUtf8 text s prompt := by
  obtain ⟨supported, rfl⟩ := startCompletion_prompt returned
  refine ⟨⟨query, content, rfl⟩, fun before => ?_⟩
  rw [← content]
  exact trim_infix_drop supported s.messages query (by omega)

theorem ReachesTokenizer.copied {getStringUTFChars : List UInt16 → Bytes} {text : List Char}
    (reaches : ReachesTokenizer getStringUTFChars text) :
    (jstringCstr getStringUTFChars (utf16 text)).bytes = encode text := by
  obtain ⟨content, bytes, stored⟩ := reaches.added (smallSession [] true) []
  have same := List.append_cancel_left stored
  rw [List.cons.injEq, LlamaChatMessage.mk.injEq] at same
  rw [same.1.2, bytes]

/-- A text reaches the tokenizer as UTF-8, whichever way it is passed, exactly when
it has no U+0000 and no character above U+FFFF. -/
theorem reachesTokenizer_iff {getStringUTFChars : List UInt16 → Bytes}
    (modified : ∀ units, getStringUTFChars units = modifiedUtf8 units) (text : List Char) :
    ReachesTokenizer getStringUTFChars text ↔ ∀ c ∈ text, c.toNat ≠ 0 ∧ c.toNat < 0x10000 := by
  have copied : (jstringCstr getStringUTFChars (utf16 text)).bytes = modifiedUtf8 (utf16 text) := by
    rw [jstringCstr, CString.ofBytes_bytes, modified, cstr_eq_self (zero_notMem_modifiedUtf8 _)]
  rw [← modifiedUtf8_eq_encode_iff, ← copied]
  constructor
  · exact ReachesTokenizer.copied
  · intro content
    exact {
      added := fun s role => ⟨_, content, rfl⟩
      asked := fun s => ⟨_, content, (startCompletion_frame _ s).messages⟩
      prompted := fun s prompt returned => promptedAsUtf8 content returned }

theorem reachesTokenizer_iff_han :
    ReachesTokenizer modifiedUtf8 [Char.ofNat 0x4F60] ↔
      ∀ c ∈ [Char.ofNat 0x4F60], c.toNat ≠ 0 ∧ c.toNat < 0x10000 :=
  reachesTokenizer_iff (fun _ => rfl) [Char.ofNat 0x4F60]

/-- U+1F600 is stored as the six bytes of its surrogates. -/
theorem not_reachesTokenizer_face :
    (jstringCstr modifiedUtf8 (utf16 [Char.ofNat 0x1F600])).bytes =
        [0xED, 0xA0, 0xBD, 0xED, 0xB8, 0x80] ∧
      encode [Char.ofNat 0x1F600] = [0xF0, 0x9F, 0x98, 0x80] ∧
      ¬ ReachesTokenizer modifiedUtf8 [Char.ofNat 0x1F600] := by
  exact ⟨by decide +kernel, by decide +kernel, fun reaches =>
    absurd reaches.copied (by decide +kernel)⟩

end MineGPT.Native
