import MineGPT.Lib.Streaming
import MineGPT.Chat.Template

/-!
# Rendering a conversation

`llm_chat_apply_template` streams the text of one message after another.  Each
definition below is the body of one of its loops; the variables that live
across iterations (`is_inside_turn`, a pending system prompt) are the loop
state.  `llama_chat_apply_template` measures the text and copies it into the
caller's buffer.

Rendered texts are shorter than 2^31 bytes, so that an `int32_t` length is an
`Int` here.
-/

set_option autoImplicit false

namespace MineGPT.Chat

open MineGPT.Lib.ByteString MineGPT.Lib.Streaming

/-- `llama_chat_message`: two pointers to NUL-terminated strings. -/
@[ext] structure LlamaChatMessage where
  role : CString
  content : CString
  deriving DecidableEq

def roleUser : CString := ⟨lit "user", by decide⟩

def roleAssistant : CString := ⟨lit "assistant", by decide⟩

def LlamaChatMessage.hasRole (message : LlamaChatMessage) (role : String) : Bool :=
  message.role.bytes == lit role

/-- `isspace` in the C locale. -/
def isspace (b : UInt8) : Bool := b == 32 || (9 ≤ b && b ≤ 13)

def trim (str : Bytes) : Bytes := (str.dropWhile isspace).rdropWhile isspace

/-- `toupper` in the C locale. -/
def toupper (b : UInt8) : UInt8 := if 97 ≤ b && b ≤ 122 then b - 32 else b

/-- `role[0] = toupper(role[0])`; on the empty string it rewrites the terminator. -/
def upperFirst : Bytes → Bytes
  | [] => []
  | b :: rest => toupper b :: rest

/-! ## Loop bodies -/

section Bodies

variable (m : LlamaChatMessage)

def chatmlBody : Bytes :=
  lit "<|im_start|>" ++ m.role.bytes ++ lit "\n" ++ m.content.bytes ++ lit "<|im_end|>\n"

def mistralV7Body : Bytes :=
  if m.hasRole "system" then lit "[SYSTEM_PROMPT] " ++ m.content.bytes ++ lit "[/SYSTEM_PROMPT]"
  else if m.hasRole "user" then lit "[INST] " ++ m.content.bytes ++ lit "[/INST]"
  else lit " " ++ m.content.bytes ++ lit "</s>"

def mistralBody (leadingSpace trailingSpace : Bytes) (trimAssistantMessage : Bool)
    (isInsideTurn : Bool) : Bytes × Bool :=
  let opening := if isInsideTurn then [] else leadingSpace ++ lit "[INST]" ++ trailingSpace
  if m.hasRole "system" then (opening ++ m.content.bytes ++ lit "\n\n", true)
  else if m.hasRole "user" then
    (opening ++ m.content.bytes ++ leadingSpace ++ lit "[/INST]", true)
  else
    (opening ++ trailingSpace
      ++ (if trimAssistantMessage then trim m.content.bytes else m.content.bytes)
      ++ lit "</s>", false)

def llama2Body (supportSystemMessage addBosInsideHistory stripMessage : Bool)
    (isInsideTurn : Bool) : Bytes × Bool :=
  let content := if stripMessage then trim m.content.bytes else m.content.bytes
  let opening :=
    if isInsideTurn then []
    else if addBosInsideHistory then lit "<s>[INST] " else lit "[INST] "
  if m.hasRole "system" then
    if supportSystemMessage then
      (opening ++ lit "<<SYS>>\n" ++ content ++ lit "\n<</SYS>>\n\n", true)
    else (opening ++ content ++ lit "\n", true)
  else if m.hasRole "user" then (opening ++ content ++ lit " [/INST]", true)
  else (opening ++ content ++ lit "</s>", false)

def phi3Body : Bytes :=
  lit "<|" ++ m.role.bytes ++ lit "|>\n" ++ m.content.bytes ++ lit "<|end|>\n"

def phi4Body : Bytes :=
  lit "<|im_start|>" ++ m.role.bytes ++ lit "<|im_sep|>" ++ m.content.bytes ++ lit "<|im_end|>"

def falcon3Body : Bytes :=
  lit "<|" ++ m.role.bytes ++ lit "|>\n" ++ m.content.bytes ++ lit "\n"

def zephyrBody : Bytes :=
  lit "<|" ++ m.role.bytes ++ lit "|>" ++ lit "\n" ++ m.content.bytes ++ lit "<|endoftext|>\n"

/-- State: whether `message == chat.front()`. -/
def monarchBody (isFront : Bool) : Bytes × Bool :=
  let bos := if isFront then [] else lit "<s>"
  (bos ++ m.role.bytes ++ lit "\n" ++ m.content.bytes ++ lit "</s>\n", false)

def gemmaBody (systemPrompt : Bytes) : Bytes × Bytes :=
  if m.hasRole "system" then ([], trim m.content.bytes)
  else
    let role := if m.hasRole "assistant" then lit "model" else m.role.bytes
    let opening := lit "<start_of_turn>" ++ role ++ lit "\n"
    let closing := trim m.content.bytes ++ lit "<end_of_turn>\n"
    if systemPrompt ≠ [] ∧ role ≠ lit "model" then
      (opening ++ systemPrompt ++ lit "\n\n" ++ closing, [])
    else (opening ++ closing, systemPrompt)

def orionBody (systemPrompt : Bytes) : Bytes × Bytes :=
  if m.hasRole "system" then ([], m.content.bytes)
  else if m.hasRole "user" then
    let pending := if systemPrompt ≠ [] then systemPrompt ++ lit "\n\n" else []
    (lit "Human: " ++ pending ++ m.content.bytes ++ lit "\n\nAssistant: </s>", [])
  else (m.content.bytes ++ lit "</s>", systemPrompt)

def openchatBody : Bytes :=
  if m.hasRole "system" then m.content.bytes ++ lit "<|end_of_turn|>"
  else
    lit "GPT4 Correct " ++ upperFirst m.role.bytes ++ lit ": " ++ m.content.bytes
      ++ lit "<|end_of_turn|>"

def vicunaBody (orca : Bool) : Bytes :=
  if m.hasRole "system" then
    if orca then lit "SYSTEM: " ++ m.content.bytes ++ lit "\n"
    else m.content.bytes ++ lit "\n\n"
  else if m.hasRole "user" then lit "USER: " ++ m.content.bytes ++ lit "\n"
  else if m.hasRole "assistant" then lit "ASSISTANT: " ++ m.content.bytes ++ lit "</s>\n"
  else []

def deepseekBody : Bytes :=
  if m.hasRole "system" then m.content.bytes
  else if m.hasRole "user" then lit "### Instruction:\n" ++ m.content.bytes ++ lit "\n"
  else if m.hasRole "assistant" then
    lit "### Response:\n" ++ m.content.bytes ++ lit "\n<|EOT|>\n"
  else []

def commandRBody : Bytes :=
  if m.hasRole "system" then
    lit "<|START_OF_TURN_TOKEN|><|SYSTEM_TOKEN|>" ++ trim m.content.bytes
      ++ lit "<|END_OF_TURN_TOKEN|>"
  else if m.hasRole "user" then
    lit "<|START_OF_TURN_TOKEN|><|USER_TOKEN|>" ++ trim m.content.bytes
      ++ lit "<|END_OF_TURN_TOKEN|>"
  else if m.hasRole "assistant" then
    lit "<|START_OF_TURN_TOKEN|><|CHATBOT_TOKEN|>" ++ trim m.content.bytes
      ++ lit "<|END_OF_TURN_TOKEN|>"
  else []

def llama3Body : Bytes :=
  lit "<|start_header_id|>" ++ m.role.bytes ++ lit "<|end_header_id|>\n\n"
    ++ trim m.content.bytes ++ lit "<|eot_id|>"

def chatgml3Body : Bytes :=
  lit "<|" ++ m.role.bytes ++ lit "|>" ++ lit "\n " ++ m.content.bytes

/-- Also the body of `glmedge`. -/
def chatgml4Body : Bytes :=
  lit "<|" ++ m.role.bytes ++ lit "|>" ++ lit "\n" ++ m.content.bytes

def minicpmBody : Bytes :=
  if m.hasRole "user" then lit "<用户>" ++ trim m.content.bytes ++ lit "<AI>"
  else trim m.content.bytes

def deepseek2Body : Bytes :=
  if m.hasRole "system" then m.content.bytes ++ lit "\n\n"
  else if m.hasRole "user" then lit "User: " ++ m.content.bytes ++ lit "\n\n"
  else if m.hasRole "assistant" then
    lit "Assistant: " ++ m.content.bytes ++ lit "<｜end▁of▁sentence｜>"
  else []

def deepseek3Body : Bytes :=
  if m.hasRole "system" then m.content.bytes ++ lit "\n\n"
  else if m.hasRole "user" then lit "<｜User｜>" ++ m.content.bytes
  else if m.hasRole "assistant" then
    lit "<｜Assistant｜>" ++ m.content.bytes ++ lit "<｜end▁of▁sentence｜>"
  else []

def exaone3Body : Bytes :=
  if m.hasRole "system" then lit "[|system|]" ++ trim m.content.bytes ++ lit "[|endofturn|]\n"
  else if m.hasRole "user" then lit "[|user|]" ++ trim m.content.bytes ++ lit "\n"
  else if m.hasRole "assistant" then
    lit "[|assistant|]" ++ trim m.content.bytes ++ lit "[|endofturn|]\n"
  else []

def rwkvWorldBody : Bytes :=
  if m.hasRole "user" then lit "User: " ++ m.content.bytes ++ lit "\n\nAssistant:"
  else m.content.bytes ++ lit "\n\n"

def graniteBody : Bytes :=
  lit "<|start_of_role|>" ++ m.role.bytes ++ lit "<|end_of_role|>"
    ++ (if m.hasRole "assistant_tool_call" then lit "<|tool_call|>" else [])
    ++ m.content.bytes ++ lit "<|end_of_text|>\n"

def gigachatBody : Bytes :=
  if m.hasRole "user" then
    lit "user<|role_sep|>" ++ m.content.bytes ++ lit "<|message_sep|>"
      ++ lit "available functions<|role_sep|>[]<|message_sep|>"
  else if m.hasRole "assistant" then
    lit "assistant<|role_sep|>" ++ m.content.bytes ++ lit "<|message_sep|>"
  else []

def megrezBody : Bytes :=
  lit "<|role_start|>" ++ m.role.bytes ++ lit "<|role_end|>" ++ m.content.bytes
    ++ lit "<|turn_end|>"

end Bodies

/-- The GigaChat loop, with the system message taken from the front only. -/
def gigachatHistory : List LlamaChatMessage → Bytes
  | [] => lit "<s>"
  | m :: rest =>
    if m.hasRole "system" then
      lit "<s>" ++ m.content.bytes ++ lit "<|message_sep|>" ++ rest.flatMap gigachatBody
    else lit "<s>" ++ (m :: rest).flatMap gigachatBody

/-! ## The renderer -/

/-- The text streamed for `chat`; `none` where the source returns -1. -/
def llmChatApplyTemplate (tmpl : LlmChatTemplate) (chat : List LlamaChatMessage)
    (addAss : Bool) : Option Bytes :=
  let generation := fun (prompt : String) => if addAss then lit prompt else []
  let mistral := fun leading trailing trimAssistant =>
    emitAll (fun inside m => mistralBody m leading trailing trimAssistant inside) false chat
  let llama2 := fun support addBos strip =>
    lit "[INST] " ++ emitAll (fun inside m => llama2Body m support addBos strip inside) true chat
  match tmpl with
  | .chatml => some (chat.flatMap chatmlBody ++ generation "<|im_start|>assistant\n")
  | .mistralV7 => some (chat.flatMap mistralV7Body)
  | .mistralV1 => some (mistral (lit " ") (lit " ") false)
  | .mistralV3 => some (mistral [] (lit " ") true)
  | .mistralV3Tekken => some (mistral [] [] false)
  | .llama2 => some (llama2 false false false)
  | .llama2Sys => some (llama2 true false false)
  | .llama2SysBos => some (llama2 true true false)
  | .llama2SysStrip => some (llama2 true false true)
  | .phi3 => some (chat.flatMap phi3Body ++ generation "<|assistant|>\n")
  | .phi4 => some (chat.flatMap phi4Body ++ generation "<|im_start|>assistant<|im_sep|>")
  | .falcon3 => some (chat.flatMap falcon3Body ++ generation "<|assistant|>\n")
  | .zephyr => some (chat.flatMap zephyrBody ++ generation "<|assistant|>\n")
  | .monarch =>
    some (emitAll (fun front m => monarchBody m front) true chat ++ generation "<s>assistant\n")
  | .gemma =>
    some (emitAll (fun system m => gemmaBody m system) [] chat
      ++ generation "<start_of_turn>model\n")
  | .orion => some (emitAll (fun system m => orionBody m system) [] chat)
  | .openchat => some (chat.flatMap openchatBody ++ generation "GPT4 Correct Assistant:")
  | .vicuna => some (chat.flatMap (vicunaBody · false) ++ generation "ASSISTANT:")
  | .vicunaOrca => some (chat.flatMap (vicunaBody · true) ++ generation "ASSISTANT:")
  | .deepseek => some (chat.flatMap deepseekBody ++ generation "### Response:\n")
  | .commandR =>
    some (chat.flatMap commandRBody
      ++ generation "<|START_OF_TURN_TOKEN|><|CHATBOT_TOKEN|>")
  | .llama3 =>
    some (chat.flatMap llama3Body
      ++ generation "<|start_header_id|>assistant<|end_header_id|>\n\n")
  | .chatgml3 =>
    some (lit "[gMASK]" ++ lit "sop" ++ chat.flatMap chatgml3Body ++ generation "<|assistant|>")
  | .chatgml4 =>
    some (lit "[gMASK]" ++ lit "<sop>" ++ chat.flatMap chatgml4Body
      ++ generation "<|assistant|>")
  | .glmedge => some (chat.flatMap chatgml4Body ++ generation "<|assistant|>")
  | .minicpm => some (chat.flatMap minicpmBody)
  | .deepseek2 => some (chat.flatMap deepseek2Body ++ generation "Assistant:")
  | .deepseek3 => some (chat.flatMap deepseek3Body ++ generation "<｜Assistant｜>")
  | .exaone3 => some (chat.flatMap exaone3Body ++ generation "[|assistant|]")
  | .rwkvWorld => some (chat.flatMap rwkvWorldBody)
  | .granite =>
    some (chat.flatMap graniteBody
      ++ generation "<|start_of_role|>assistant<|end_of_role|>\n")
  | .gigachat => some (gigachatHistory chat ++ generation "assistant<|role_sep|>")
  | .megrez =>
    some (chat.flatMap megrezBody ++ generation "<|role_start|>assistant<|role_end|>")
  | .unknown => none

def currTmpl (tmpl : Option CString) : Bytes :=
  match tmpl with
  | none => lit "chatml"
  | some text => text.bytes

/-- `llama_chat_apply_template(tmpl, chat, n_msg, add_ass, buf, length)`: the
returned length and the buffer afterwards.  The empty buffer stands for the call
with `nullptr` and 0. -/
def llamaChatApplyTemplate (tmpl : Option CString) (chat : List LlamaChatMessage)
    (addAss : Bool) (buf : Bytes) : Int × Bytes :=
  match llmChatApplyTemplate (llmChatDetectTemplate (currTmpl tmpl)) chat addAss with
  | none => (-1, buf)
  | some formattedChat =>
    (formattedChat.length,
      if buf.length > 0 then strncpy buf.length formattedChat else buf)

end MineGPT.Chat
