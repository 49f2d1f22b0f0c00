import MineGPT.Lib.ByteString

/-!
# Chat templates and their detection

The template kinds of `llama-chat.h` and `llm_chat_detect_template`: a template
string is first looked up among the built-in names, then recognised by the
markers it contains.  It is never interpreted.
-/

set_option autoImplicit false

namespace MineGPT.Chat

open MineGPT.Lib.ByteString

inductive LlmChatTemplate where
  | chatml
  | llama2
  | llama2Sys
  | llama2SysBos
  | llama2SysStrip
  | mistralV1
  | mistralV3
  | mistralV3Tekken
  | mistralV7
  | phi3
  | phi4
  | falcon3
  | zephyr
  | monarch
  | gemma
  | orion
  | openchat
  | vicuna
  | vicunaOrca
  | deepseek
  | deepseek2
  | deepseek3
  | commandR
  | llama3
  | chatgml3
  | chatgml4
  | glmedge
  | minicpm
  | exaone3
  | rwkvWorld
  | granite
  | gigachat
  | megrez
  | unknown
  deriving DecidableEq, Repr

def llmChatTemplates : List (String × LlmChatTemplate) :=
  [("chatml", .chatml), ("llama2", .llama2), ("llama2-sys", .llama2Sys),
    ("llama2-sys-bos", .llama2SysBos), ("llama2-sys-strip", .llama2SysStrip),
    ("mistral-v1", .mistralV1), ("mistral-v3", .mistralV3),
    ("mistral-v3-tekken", .mistralV3Tekken), ("mistral-v7", .mistralV7),
    ("phi3", .phi3), ("phi4", .phi4), ("falcon3", .falcon3), ("zephyr", .zephyr),
    ("monarch", .monarch), ("gemma", .gemma), ("orion", .orion),
    ("openchat", .openchat), ("vicuna", .vicuna), ("vicuna-orca", .vicunaOrca),
    ("deepseek", .deepseek), ("deepseek2", .deepseek2), ("deepseek3", .deepseek3),
    ("command-r", .commandR), ("llama3", .llama3), ("chatglm3", .chatgml3),
    ("chatglm4", .chatgml4), ("glmedge", .glmedge), ("minicpm", .minicpm),
    ("exaone3", .exaone3), ("rwkv-world", .rwkvWorld), ("granite", .granite),
    ("gigachat", .gigachat), ("megrez", .megrez)]

/-- `LLM_CHAT_TEMPLATES.at(name)`; `none` where `at` throws `out_of_range`. -/
def llmChatTemplateFromStr (name : Bytes) : Option LlmChatTemplate :=
  (llmChatTemplates.find? fun entry => lit entry.1 == name).map Prod.snd

/-- `haystack.find(needle) != npos`. -/
def contains (needle : Bytes) : Bytes → Bool
  | [] => needle.isPrefixOf []
  | b :: rest => needle.isPrefixOf (b :: rest) || contains needle rest

def llmChatDetectTemplate (tmpl : Bytes) : LlmChatTemplate :=
  match llmChatTemplateFromStr tmpl with
  | some kind => kind
  | none =>
    let tmplContains := fun (marker : String) => contains (lit marker) tmpl
    if tmplContains "<|im_start|>" then
      if tmplContains "<|im_sep|>" then .phi4 else .chatml
    else if (lit "mistral").isPrefixOf tmpl || tmplContains "[INST]" then
      if tmplContains "[SYSTEM_PROMPT]" then .mistralV7
      else if tmplContains "' [INST] ' + system_message"
          || tmplContains "[AVAILABLE_TOOLS]" then
        if tmplContains " [INST]" then .mistralV1
        else if tmplContains "\"[INST]\"" then .mistralV3Tekken
        else .mistralV3
      else
        let supportSystemMessage := tmplContains "<<SYS>>"
        let addBosInsideHistory := tmplContains "bos_token + '[INST]"
        let stripMessage := tmplContains "content.strip()"
        if stripMessage then .llama2SysStrip
        else if addBosInsideHistory then .llama2SysBos
        else if supportSystemMessage then .llama2Sys
        else .llama2
    else if tmplContains "<|assistant|>" && tmplContains "<|end|>" then .phi3
    else if tmplContains "<|assistant|>" && tmplContains "<|user|>" then
      if tmplContains "</s>" then .falcon3 else .glmedge
    else if tmplContains "<|user|>" && tmplContains "<|endoftext|>" then .zephyr
    else if tmplContains "bos_token + message['role']" then .monarch
    else if tmplContains "<start_of_turn>" then .gemma
    else if tmplContains "'\\n\\nAssistant: ' + eos_token" then .orion
    else if tmplContains "GPT4 Correct " then .openchat
    else if tmplContains "USER: " && tmplContains "ASSISTANT: " then
      if tmplContains "SYSTEM: " then .vicunaOrca else .vicuna
    else if tmplContains "### Instruction:" && tmplContains "<|EOT|>" then .deepseek
    else if tmplContains "<|START_OF_TURN_TOKEN|>" && tmplContains "<|USER_TOKEN|>" then
      .commandR
    else if tmplContains "<|start_header_id|>" && tmplContains "<|end_header_id|>" then
      .llama3
    else if tmplContains "[gMASK]sop" then .chatgml3
    else if tmplContains "[gMASK]<sop>" then .chatgml4
    else if tmplContains "<用户>" then .minicpm
    else if tmplContains "'Assistant: ' + message['content'] + eos_token" then .deepseek2
    else if tmplContains "<｜Assistant｜>" && tmplContains "<｜User｜>"
        && tmplContains "<｜end▁of▁sentence｜>" then .deepseek3
    else if tmplContains "[|system|]" && tmplContains "[|assistant|]"
        && tmplContains "[|endofturn|]" then .exaone3
    else if tmplContains "rwkv-world" then .rwkvWorld
    else if tmplContains "<|start_of_role|>" then .granite
    else if tmplContains
        "message['role'] + additional_special_tokens[0] + message['content'] + additional_special_tokens[1]" then
      .gigachat
    else if tmplContains "<|role_start|>" then .megrez
    else .unknown

end MineGPT.Chat
