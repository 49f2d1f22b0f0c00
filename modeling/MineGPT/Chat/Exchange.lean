import MineGPT.Chat.Delta

/-!
# Earlier exchanges show

A question in front of the last one makes the rendering strictly longer,
whatever the template holds back for the next user message (a system prompt, an
opening tag).
-/

set_option autoImplicit false

namespace MineGPT.Chat

open MineGPT.Lib.ByteString MineGPT.Lib.Streaming

def LlamaChatMessage.IsUser (m : LlamaChatMessage) : Prop := m.role = roleUser

def LlamaChatMessage.OfTurn (m : LlamaChatMessage) : Prop :=
  m.role = roleUser ∨ m.role = roleAssistant

section Roles

variable {m : LlamaChatMessage}

theorem LlamaChatMessage.IsUser.hasRole (user : m.IsUser) :
    m.hasRole "user" = true ∧ m.hasRole "system" = false := by
  have same : m.role = roleUser := user
  simp only [LlamaChatMessage.hasRole, same]
  exact ⟨by decide, by decide⟩

theorem LlamaChatMessage.IsUser.notAssistant (user : m.IsUser) :
    m.hasRole "assistant" = false := by
  have same : m.role = roleUser := user
  simp only [LlamaChatMessage.hasRole, same]
  decide

theorem LlamaChatMessage.OfTurn.notSystem (turn : m.OfTurn) : m.hasRole "system" = false := by
  rcases turn with user | assistant
  · exact LlamaChatMessage.IsUser.hasRole user |>.2
  · simp only [LlamaChatMessage.hasRole, assistant]
    decide

end Roles

theorem longerWith_mistral (leadingSpace trailingSpace : Bytes) (trimAssistant : Bool) (s : Bool) :
    LongerWith (emitAll (fun inside m =>
      mistralBody m leadingSpace trailingSpace trimAssistant inside) s)
      LlamaChatMessage.IsUser LlamaChatMessage.OfTurn := by
  -- outside a turn the next message opens one
  apply longerWith_emitAll
    (fun inside => if inside then 0 else (leadingSpace ++ lit "[INST]" ++ trailingSpace).length)
    (fun m => (m.content.bytes ++ leadingSpace ++ lit "[/INST]").length)
  · intro inside m user
    simp only [mistralBody, user.hasRole, Bool.false_eq_true, if_false, if_true]
    cases inside
    · simp
      omega
    · simp
  · intro m _
    have : 0 < (lit "[/INST]").length := by decide
    simp only [List.length_append]
    omega
  · intro inside m _
    cases inside
    · simp only [mistralBody]
      split_ifs <;> simp
    · simp

theorem longerWith_llama2 (support addBos strip : Bool) (s : Bool) :
    LongerWith (emitAll (fun inside m => llama2Body m support addBos strip inside) s)
      LlamaChatMessage.IsUser LlamaChatMessage.OfTurn := by
  apply longerWith_emitAll
    (fun inside => if inside then 0
      else (if addBos then lit "<s>[INST] " else lit "[INST] ").length)
    (fun m => ((if strip then trim m.content.bytes else m.content.bytes) ++ lit " [/INST]").length)
  · intro inside m user
    simp only [llama2Body, user.hasRole, Bool.false_eq_true, if_false, if_true]
    cases inside <;> simp
  · intro m _
    have : 0 < (lit " [/INST]").length := by decide
    simp only [List.length_append]
    omega
  · intro inside m _
    cases inside
    · simp only [llama2Body, Bool.false_eq_true, if_false]
      split_ifs <;> simp
    · simp

theorem longerWith_monarch (s : Bool) :
    LongerWith (emitAll (fun front m => monarchBody m front) s)
      LlamaChatMessage.IsUser LlamaChatMessage.OfTurn := by
  apply longerWith_emitAll (fun front => if front then 0 else (lit "<s>").length)
    (fun m => (m.role.bytes ++ lit "\n" ++ m.content.bytes ++ lit "</s>\n").length)
  · intro front m _
    cases front <;> simp [monarchBody]
  · intro m _
    have : 0 < (lit "</s>\n").length := by decide
    simp only [List.length_append]
    omega
  · intro front m _
    cases front <;> simp [monarchBody]

/-- A system prompt that is held back goes out with two line ends behind it. -/
def pendingLength (systemPrompt : Bytes) : Nat :=
  if systemPrompt ≠ [] then systemPrompt.length + (lit "\n\n").length else 0

theorem longerWith_gemma (s : Bytes) :
    LongerWith (emitAll (fun system m => gemmaBody m system) s)
      LlamaChatMessage.IsUser LlamaChatMessage.OfTurn := by
  apply longerWith_emitAll pendingLength
    (fun m => (lit "<start_of_turn>" ++ m.role.bytes ++ lit "\n" ++
      (trim m.content.bytes ++ lit "<end_of_turn>\n")).length)
  · intro system m user
    have other : m.role.bytes ≠ lit "model" := by
      have same : m.role = roleUser := user
      rw [same]
      decide
    simp only [gemmaBody, user.hasRole, user.notAssistant, Bool.false_eq_true, if_false,
      other, pendingLength, ne_eq, not_false_eq_true, and_true]
    split_ifs
    · simp
    · simp
      omega
  · intro m _
    have : 0 < (lit "<start_of_turn>").length := by decide
    simp only [List.length_append]
    omega
  · intro system m turn
    simp only [gemmaBody, turn.notSystem, Bool.false_eq_true, if_false]
    generalize (if m.hasRole "assistant" = true then lit "model" else m.role.bytes) = role
    split
    · rename_i held
      simp only [pendingLength, held.1, ne_eq, not_false_eq_true, if_true, List.length_append]
      omega
    · exact Nat.le_add_left _ _

theorem longerWith_orion (s : Bytes) :
    LongerWith (emitAll (fun system m => orionBody m system) s)
      LlamaChatMessage.IsUser LlamaChatMessage.OfTurn := by
  apply longerWith_emitAll pendingLength
    (fun m => (lit "Human: " ++ m.content.bytes ++ lit "\n\nAssistant: </s>").length)
  · intro system m user
    simp only [orionBody, user.hasRole, Bool.false_eq_true, if_false, if_true, pendingLength]
    split_ifs <;> simp
    omega
  · intro m _
    have : 0 < (lit "Human: ").length := by decide
    simp only [List.length_append]
    omega
  · intro system m turn
    simp only [orionBody, turn.notSystem, Bool.false_eq_true, if_false]
    split
    · by_cases held : system = []
      · simp [pendingLength, held]
      · simp only [pendingLength, held, ne_eq, not_false_eq_true, if_true, List.length_append]
        omega
    · exact Nat.le_add_left _ _

theorem longerWith_gigachat :
    LongerWith gigachatHistory LlamaChatMessage.IsUser LlamaChatMessage.OfTurn := by
  have adds : ∀ m : LlamaChatMessage, m.IsUser → gigachatBody m ≠ [] := by
    intro m user
    simp [gigachatBody, user.hasRole, lit_eq_nil_iff]
  have longer : LongerWith (List.flatMap gigachatBody)
      LlamaChatMessage.IsUser LlamaChatMessage.OfTurn := longerWith_flatMap adds
  intro earlier x xs last first others lastFirst
  cases earlier with
  | nil =>
      simp only [List.nil_append, List.cons_append, gigachatHistory, first.hasRole,
        lastFirst.hasRole, Bool.false_eq_true, if_false]
      exact longer.prepend (lit "<s>") [] x xs last first others lastFirst
  | cons m rest =>
      simp only [List.cons_append, gigachatHistory]
      split
      · exact longer.prepend _ rest x xs last first others lastFirst
      · exact longer.prepend (lit "<s>") (m :: rest) x xs last first others lastFirst

theorem longerWith_render {tmpl : LlmChatTemplate} (supported : tmpl ≠ .unknown) (addAss : Bool) :
    LongerWith (fun chat => render tmpl chat addAss)
      LlamaChatMessage.IsUser LlamaChatMessage.OfTurn := by
  have history : LongerWith (fun chat => render tmpl chat false)
      LlamaChatMessage.IsUser LlamaChatMessage.OfTurn := by
    cases tmpl
    case unknown => exact absurd rfl supported
    case gigachat => simpa [render, llmChatApplyTemplate] using longerWith_gigachat
    all_goals
      simp only [render, llmChatApplyTemplate, Option.getD_some, Bool.false_eq_true, if_false,
        List.append_nil]
    case gemma => exact longerWith_gemma _
    case orion => exact longerWith_orion _
    case monarch => exact longerWith_monarch _
    case mistralV1 | mistralV3 | mistralV3Tekken => exact longerWith_mistral _ _ _ _
    case llama2 | llama2Sys | llama2SysBos | llama2SysStrip =>
      exact (longerWith_llama2 _ _ _ _).prepend _
    case chatgml3 | chatgml4 =>
      exact (longerWith_flatMap fun m user => by
        simp [chatgml3Body, chatgml4Body, lit_eq_nil_iff]).prepend _
    all_goals
      exact longerWith_flatMap fun m user => by
        simp [chatmlBody, mistralV7Body, phi3Body, phi4Body, falcon3Body, zephyrBody,
          openchatBody, vicunaBody, deepseekBody, commandRBody, llama3Body, chatgml4Body,
          minicpmBody, deepseek2Body, deepseek3Body, exaone3Body, rwkvWorldBody, graniteBody,
          megrezBody, lit_eq_nil_iff, user.hasRole]
  cases addAss with
  | false => exact history
  | true =>
      obtain ⟨generation, _, same⟩ := exists_generation tmpl
      intro earlier x xs last first others lastFirst
      simp only [same, List.length_append]
      exact Nat.add_lt_add_right (history earlier x xs last first others lastFirst) _

end MineGPT.Chat
