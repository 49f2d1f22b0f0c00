import MineGPT.Chat.Render

/-!
# A rendered history is never rewritten

For every supported template the text of a history is a prefix of the text of
any longer one, the generation prompt is a fixed text put after it, and a user
message always adds something.  The first fact is what makes it sound to send
only the part of the rendering after a remembered offset.
-/

set_option autoImplicit false

namespace MineGPT.Chat

open MineGPT.Lib.ByteString MineGPT.Lib.Streaming

def render (tmpl : LlmChatTemplate) (chat : List LlamaChatMessage) (addAss : Bool) : Bytes :=
  (llmChatApplyTemplate tmpl chat addAss).getD []

theorem llmChatApplyTemplate_eq_render {tmpl : LlmChatTemplate} (supported : tmpl ≠ .unknown)
    (chat : List LlamaChatMessage) (addAss : Bool) :
    llmChatApplyTemplate tmpl chat addAss = some (render tmpl chat addAss) := by
  cases tmpl <;> first | rfl | exact absurd rfl supported

theorem llmChatApplyTemplate_eq_none_iff (tmpl : LlmChatTemplate)
    (chat : List LlamaChatMessage) (addAss : Bool) :
    llmChatApplyTemplate tmpl chat addAss = none ↔ tmpl = .unknown := by
  cases tmpl <;> simp [llmChatApplyTemplate]

theorem appendOnly_gigachatHistory : AppendOnly gigachatHistory := by
  intro h d
  cases h with
  | nil =>
      cases d with
      | nil => exact List.prefix_refl _
      | cons m rest =>
          simp only [gigachatHistory, List.nil_append]
          split
          · simp only [List.append_assoc]
            exact List.prefix_append _ _
          · exact List.prefix_append _ _
  | cons m rest =>
      simp only [gigachatHistory, List.cons_append]
      split
      · exact (appendOnly_flatMap gigachatBody).prepend _ rest d
      · exact (appendOnly_flatMap gigachatBody).prepend (lit "<s>") (m :: rest) d

/-- More messages only ever add text after the text of the earlier ones. -/
theorem appendOnly_render (tmpl : LlmChatTemplate) :
    AppendOnly (fun chat => render tmpl chat false) := by
  cases tmpl
  case gigachat => simpa [render, llmChatApplyTemplate] using appendOnly_gigachatHistory
  case unknown => intro h d; exact List.prefix_refl _
  all_goals
    simp only [render, llmChatApplyTemplate, Option.getD_some, Bool.false_eq_true, if_false,
      List.append_nil]
    first
    | exact appendOnly_flatMap _
    | exact appendOnly_emitAll _ _
    | exact (appendOnly_emitAll _ _).prepend _
    | exact (appendOnly_flatMap _).prepend _

/-- The generation prompt is one fixed text, put after the history. -/
theorem exists_generation (tmpl : LlmChatTemplate) :
    ∃ generation : Bytes, 0 ∉ generation ∧
      ∀ chat, render tmpl chat true = render tmpl chat false ++ generation := by
  cases tmpl
  all_goals
    simp only [render, llmChatApplyTemplate, Option.getD_some, Option.getD_none, if_true,
      Bool.false_eq_true, if_false, List.append_nil]
    first
    | refine ⟨_, ?_, fun _ => rfl⟩
      decide
    | exact ⟨[], List.not_mem_nil, fun _ => (List.append_nil _).symm⟩

theorem render_false_prefix_true (tmpl : LlmChatTemplate) (chat : List LlamaChatMessage) :
    render tmpl chat false <+: render tmpl chat true := by
  obtain ⟨generation, _, same⟩ := exists_generation tmpl
  exact ⟨generation, (same chat).symm⟩

/-- Delta rendering: the text of `h` is a prefix of the text of `h ++ d`, with
and without the generation prompt. -/
theorem render_prefix (tmpl : LlmChatTemplate) (h d : List LlamaChatMessage) (addAss : Bool) :
    render tmpl h false <+: render tmpl (h ++ d) addAss := by
  cases addAss with
  | false => exact appendOnly_render tmpl h d
  | true => exact (appendOnly_render tmpl h d).trans (render_false_prefix_true tmpl (h ++ d))

/-! ## A user message is always visible -/

def userMessage (query : CString) : LlamaChatMessage := ⟨roleUser, query⟩

@[simp] theorem userMessage_isUser (query : CString) :
    (userMessage query).hasRole "user" = true := by
  show (lit "user" == lit "user") = true
  decide

@[simp] theorem userMessage_isNotSystem (query : CString) :
    (userMessage query).hasRole "system" = false := by
  show (lit "user" == lit "system") = false
  decide

theorem gemmaBody_user_ne_nil (query : CString) (systemPrompt : Bytes) :
    (gemmaBody (userMessage query) systemPrompt).1 ≠ [] := by
  simp only [gemmaBody, userMessage_isNotSystem, Bool.false_eq_true, if_false]
  split_ifs <;> simp [lit_eq_nil_iff]

theorem gigachatHistory_user_grows (query : CString) :
    GrowsWith gigachatHistory (userMessage query) := by
  have adds : gigachatBody (userMessage query) ≠ [] := by simp [gigachatBody, lit_eq_nil_iff]
  have grows := growsWith_flatMap adds
  intro h
  cases h with
  | nil =>
      have := (grows.prepend (lit "<s>")) []
      simpa [gigachatHistory] using this
  | cons m rest =>
      simp only [gigachatHistory, List.cons_append]
      split
      · exact grows.prepend _ rest
      · exact grows.prepend (lit "<s>") (m :: rest)

theorem render_user_grows {tmpl : LlmChatTemplate} (supported : tmpl ≠ .unknown)
    (query : CString) : GrowsWith (fun chat => render tmpl chat false) (userMessage query) := by
  cases tmpl
  case unknown => exact absurd rfl supported
  case gigachat =>
    simpa [render, llmChatApplyTemplate] using gigachatHistory_user_grows query
  all_goals
    simp only [render, llmChatApplyTemplate, Option.getD_some, Bool.false_eq_true, if_false,
      List.append_nil]
  case gemma => exact growsWith_emitAll (gemmaBody_user_ne_nil query)
  case monarch | orion | mistralV1 | mistralV3 | mistralV3Tekken =>
    exact growsWith_emitAll (by simp [monarchBody, orionBody, mistralBody, lit_eq_nil_iff])
  case llama2 | llama2Sys | llama2SysBos | llama2SysStrip =>
    exact (growsWith_emitAll (by simp [llama2Body, lit_eq_nil_iff])).prepend _
  case chatgml3 | chatgml4 =>
    exact (growsWith_flatMap
      (by simp [chatgml3Body, chatgml4Body, lit_eq_nil_iff])).prepend _
  all_goals
    exact growsWith_flatMap (by
      simp [chatmlBody, mistralV7Body, phi3Body, phi4Body, falcon3Body, zephyrBody,
        openchatBody, vicunaBody, deepseekBody, commandRBody, llama3Body, chatgml4Body,
        minicpmBody, deepseek2Body, deepseek3Body, exaone3Body, rwkvWorldBody, graniteBody,
        megrezBody, lit_eq_nil_iff])

/-! ## The text of a user message -/

theorem trim_infix (str : Bytes) : trim str <:+: str :=
  (List.rdropWhile_prefix _ _).isInfix.trans (List.dropWhile_suffix _).isInfix

theorem infix_gigachatBody (query : CString) :
    query.bytes <:+: gigachatBody (userMessage query) := by
  simp only [gigachatBody, userMessage_isUser, if_true, List.append_assoc]
  exact List.infix_append_of_infix_right List.infix_append_left

theorem gigachatHistory_user_addsPart (query : CString) :
    AddsPart gigachatHistory (userMessage query) query.bytes := by
  have adds := addsPart_flatMap (infix_gigachatBody query)
  intro h
  cases h with
  | nil =>
      obtain ⟨added, split, inside⟩ := (adds.prepend (lit "<s>")) []
      exact ⟨added, by simpa [gigachatHistory] using split, inside⟩
  | cons m rest =>
      simp only [gigachatHistory, List.cons_append]
      split
      · exact adds.prepend _ rest
      · exact adds.prepend (lit "<s>") (m :: rest)

/-- The text of a user message is in what the message adds, though a template may
trim it. -/
theorem render_user_addsPart {tmpl : LlmChatTemplate} (supported : tmpl ≠ .unknown)
    (query : CString) :
    AddsPart (fun chat => render tmpl chat false) (userMessage query) (trim query.bytes) := by
  have content : trim query.bytes <:+: query.bytes := trim_infix _
  have same : (userMessage query).content = query := rfl
  cases tmpl
  case unknown => exact absurd rfl supported
  case gigachat =>
    intro h
    obtain ⟨added, split, inside⟩ := gigachatHistory_user_addsPart query h
    exact ⟨added, by simpa [render, llmChatApplyTemplate] using split, content.trans inside⟩
  all_goals
    simp only [render, llmChatApplyTemplate, Option.getD_some, Bool.false_eq_true, if_false,
      List.append_nil]
  case gemma =>
    refine addsPart_emitAll fun system => ?_
    simp only [gemmaBody, userMessage_isNotSystem, Bool.false_eq_true, if_false,
      List.append_assoc, same]
    split_ifs
    all_goals
      repeat first
      | exact List.infix_append_left
      | apply List.infix_append_of_infix_right
  case monarch | orion | mistralV1 | mistralV3 | mistralV3Tekken =>
    refine addsPart_emitAll fun state => content.trans ?_
    simp only [monarchBody, orionBody, mistralBody, userMessage_isNotSystem, userMessage_isUser,
      Bool.false_eq_true, if_false, if_true, List.append_assoc, same]
    repeat first
      | exact List.infix_append_left
      | apply List.infix_append_of_infix_right
  case llama2 | llama2Sys | llama2SysBos | llama2SysStrip =>
    refine (addsPart_emitAll fun state => ?_).prepend _
    simp only [llama2Body, userMessage_isNotSystem, userMessage_isUser,
      Bool.false_eq_true, if_false, if_true, List.append_assoc, same]
    first
    | exact List.infix_append_of_infix_right List.infix_append_left
    | exact content.trans (List.infix_append_of_infix_right List.infix_append_left)
  case chatgml3 | chatgml4 =>
    refine (addsPart_flatMap (content.trans ?_)).prepend _
    simp only [chatgml3Body, chatgml4Body, List.append_assoc, same]
    repeat first
      | exact List.infix_rfl
      | apply List.infix_append_of_infix_right
  case commandR | llama3 | minicpm | exaone3 =>
    refine addsPart_flatMap ?_
    simp only [commandRBody, llama3Body, minicpmBody, exaone3Body, userMessage_isUser,
      userMessage_isNotSystem, Bool.false_eq_true, if_false, if_true, List.append_assoc, same]
    repeat first
      | exact List.infix_append_left
      | apply List.infix_append_of_infix_right
  all_goals
    refine addsPart_flatMap (content.trans ?_)
    simp only [chatmlBody, mistralV7Body, phi3Body, phi4Body, falcon3Body, zephyrBody,
      openchatBody, vicunaBody, deepseekBody, chatgml4Body, deepseek2Body, deepseek3Body,
      rwkvWorldBody, graniteBody, megrezBody, userMessage_isUser, userMessage_isNotSystem,
      Bool.false_eq_true, if_false, if_true, List.append_assoc, same]
    repeat first
      | exact List.infix_append_left
      | exact List.infix_rfl
      | apply List.infix_append_of_infix_right

/-! ## Rendered texts hold no NUL -/

@[simp] theorem zero_notMem_trim {str : Bytes} (noNul : 0 ∉ str) : 0 ∉ trim str := by
  intro member
  exact noNul ((List.dropWhile_sublist _).subset ((List.rdropWhile_prefix _ _).subset member))

theorem toupper_ne_zero {b : UInt8} (nonzero : b ≠ 0) : toupper b ≠ 0 := by
  unfold toupper
  split
  · rename_i lower
    grind
  · exact nonzero

@[simp] theorem zero_notMem_upperFirst {str : Bytes} (noNul : 0 ∉ str) :
    0 ∉ upperFirst str := by
  cases str with
  | nil => exact noNul
  | cons b rest =>
      simp only [upperFirst, List.mem_cons, not_or] at noNul ⊢
      exact ⟨Ne.symm (toupper_ne_zero (Ne.symm noNul.1)), noNul.2⟩

theorem zero_notMem_flatMap {body : LlamaChatMessage → Bytes}
    (each : ∀ m, 0 ∉ body m) (chat : List LlamaChatMessage) : 0 ∉ chat.flatMap body := by
  intro member
  obtain ⟨m, _, inBody⟩ := List.mem_flatMap.mp member
  exact each m inBody

theorem zero_notMem_emitAll {σ : Type} {body : σ → LlamaChatMessage → Bytes × σ}
    (good : σ → Prop) (keep : ∀ s m, good s → good (body s m).2)
    (each : ∀ s m, good s → 0 ∉ (body s m).1) {s : σ} (ok : good s)
    (chat : List LlamaChatMessage) : 0 ∉ emitAll body s chat := by
  have nonzero : ∀ b ∈ emitAll body s chat, b ≠ 0 := by
    refine forall_mem_emitAll keep ?_ chat s ok
    intro s' m ok' b inBody zero
    subst zero
    exact each s' m ok' inBody
  exact fun member => nonzero 0 member rfl

theorem zero_notMem_gigachatHistory (chat : List LlamaChatMessage) :
    0 ∉ gigachatHistory chat := by
  have each : ∀ m, 0 ∉ gigachatBody m := by
    intro m
    unfold gigachatBody
    split_ifs <;> simp +decide
  cases chat with
  | nil => decide
  | cons m rest =>
      simp only [gigachatHistory]
      split_ifs
      · simp +decide [zero_notMem_flatMap each rest]
      · have := zero_notMem_flatMap each (m :: rest)
        rw [List.mem_append]
        exact fun member => member.elim (by decide) this

theorem zero_notMem_gemma (chat : List LlamaChatMessage) :
    0 ∉ emitAll (fun system m => gemmaBody m system) [] chat := by
  refine zero_notMem_emitAll (fun system : Bytes => 0 ∉ system) ?_ ?_ List.not_mem_nil chat
    <;> intro system m ok
  · simp only [gemmaBody]
    (repeat' split) <;> simp [ok]
  · simp only [gemmaBody]
    (repeat' split) <;> simp +decide [ok]

theorem zero_notMem_orion (chat : List LlamaChatMessage) :
    0 ∉ emitAll (fun system m => orionBody m system) [] chat := by
  refine zero_notMem_emitAll (fun system : Bytes => 0 ∉ system) ?_ ?_ List.not_mem_nil chat
    <;> intro system m ok
  · unfold orionBody
    split_ifs <;> simp [ok]
  · unfold orionBody
    split_ifs <;> simp +decide [ok]

/-- No supported template writes a NUL byte, as roles and contents hold none. -/
theorem zero_notMem_render (tmpl : LlmChatTemplate) (chat : List LlamaChatMessage)
    (addAss : Bool) : 0 ∉ render tmpl chat addAss := by
  have stateless : ∀ body : LlamaChatMessage → Bytes, (∀ m, 0 ∉ body m) →
      0 ∉ chat.flatMap body := fun body each => zero_notMem_flatMap each chat
  have stateful : ∀ (body : Bool → LlamaChatMessage → Bytes × Bool) (s : Bool),
      (∀ s m, 0 ∉ (body s m).1) → 0 ∉ emitAll body s chat := fun body s each =>
    zero_notMem_emitAll (fun _ => True) (fun _ _ _ => trivial) (fun s m _ => each s m)
      trivial chat
  have history : 0 ∉ render tmpl chat false := by
    cases tmpl
    case unknown => exact List.not_mem_nil
    case gigachat => simpa [render, llmChatApplyTemplate] using zero_notMem_gigachatHistory chat
    case gemma => simpa [render, llmChatApplyTemplate] using zero_notMem_gemma chat
    case orion => simpa [render, llmChatApplyTemplate] using zero_notMem_orion chat
    all_goals
      simp only [render, llmChatApplyTemplate, Option.getD_some, Bool.false_eq_true, if_false,
        List.append_nil, List.mem_append, not_or]
    case monarch =>
      apply stateful
      intro s m
      simp only [monarchBody]
      split <;> simp +decide
    case mistralV1 | mistralV3 | mistralV3Tekken =>
      apply stateful
      intro s m
      simp only [mistralBody]
      (repeat' split) <;> simp +decide
    case llama2 | llama2Sys | llama2SysBos | llama2SysStrip =>
      refine ⟨by decide, stateful _ true fun s m => ?_⟩
      simp only [llama2Body]
      (repeat' split) <;> simp +decide
    case chatgml3 | chatgml4 =>
      refine ⟨by decide, stateless _ fun m => ?_⟩
      simp +decide [chatgml3Body, chatgml4Body]
    all_goals
      apply stateless
      intro m
      simp only [chatmlBody, mistralV7Body, phi3Body, phi4Body, falcon3Body, zephyrBody,
        openchatBody, vicunaBody, deepseekBody, commandRBody, llama3Body, chatgml4Body,
        minicpmBody, deepseek2Body, deepseek3Body, exaone3Body, rwkvWorldBody, graniteBody,
        megrezBody]
      (repeat' split) <;> simp +decide
  cases addAss with
  | false => exact history
  | true =>
      obtain ⟨generation, noNul, same⟩ := exists_generation tmpl
      rw [same, List.mem_append]
      exact fun member => member.elim history noNul

end MineGPT.Chat
