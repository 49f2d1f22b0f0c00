import MineGPT.Gguf.Layout

/-!
# `LLMReader`

The Kotlin class that reads the context length and the chat template of a model
file, down to the accessors of the GGUF context.  `loadModel` keeps the pointer
it is given, null or not; the getters only assert that it is set.
-/

set_option autoImplicit false

namespace MineGPT.Llm

open MineGPT.Lib MineGPT.Lib.ByteString MineGPT.Lib.Reader MineGPT.Gguf

/-! ## The native getters -/

def keyArchitecture : Bytes := lit "general.architecture"

def keyChatTemplate : Bytes := lit "tokenizer.chat_template"

/-- `architecture + ".context_length"` -/
def contextLengthKey (architecture : Bytes) : Bytes := architecture ++ lit ".context_length"

def readKey {α : Type} (kv : List GgufKv) (key : Bytes) (missing : α)
    (read : Nat → Except Crash α) : Except Crash α :=
  match findKey kv key with
  | none => .ok missing
  | some keyId => read keyId

def nativeContextLength (kv : List GgufKv) (architecture : Bytes) : Except Crash Int :=
  readKey kv (contextLengthKey architecture) (-1) fun keyId =>
    (getValU32 kv keyId).map Int.ofNat

def nativeContextSize (kv : List GgufKv) : Except Crash Int :=
  readKey kv keyArchitecture (-1) fun keyId => do
    let architecture ← getValStr kv keyId
    nativeContextLength kv architecture

/-- The text handed to `NewStringUTF`. -/
def nativeChatTemplate (kv : List GgufKv) : Except Crash Bytes :=
  readKey kv keyChatTemplate [] fun keyId => getValStr kv keyId

/-- A native method dereferences its handle. -/
def withContext {α : Type} (read : List GgufKv → Except Crash α) :
    Option GgufContext → Except Crash α
  | none => .error .nullContext
  | some ctx => read ctx.kv

/-! ## The Kotlin class -/

inductive KotlinResult (α : Type) where
  | value (a : α)
  | null
  | threw (message : String)
  deriving DecidableEq, Repr

structure LLMReader where
  /-- `none` for 0. -/
  nativeHandle : Option GgufContext

namespace LLMReader

def loadModel (env : ReadEnv) (file : Option Bytes) : Except Crash LLMReader :=
  (ggufInitFromFile env file).map fun handle => { nativeHandle := handle }

/-- `assert(nativeHandle != 0L)`, then the native getter. -/
def asserted {α β : Type} (assertionsEnabled : Bool) (r : LLMReader)
    (read : List GgufKv → Except Crash α) (result : α → KotlinResult β) :
    Except Crash (KotlinResult β) :=
  if assertionsEnabled ∧ r.nativeHandle.isNone then
    .ok (.threw "Use GGUFReader.load() to initialize the reader")
  else (withContext read r.nativeHandle).map result

def getContextSize (assertionsEnabled : Bool) (r : LLMReader) :
    Except Crash (KotlinResult Int) :=
  r.asserted assertionsEnabled nativeContextSize fun size =>
    if size = -1 then .null else .value size

def getChatTemplate (assertionsEnabled : Bool) (r : LLMReader) :
    Except Crash (KotlinResult Bytes) :=
  r.asserted assertionsEnabled nativeChatTemplate fun text =>
    if text = [] then .null else .value text

end LLMReader

inductive Getter where
  | getContextSize
  | getChatTemplate
  deriving DecidableEq, Repr

inductive Answer where
  | contextSize (result : KotlinResult Int)
  | chatTemplate (result : KotlinResult Bytes)
  deriving DecidableEq, Repr

def Getter.call (assertionsEnabled : Bool) (r : LLMReader) : Getter → Except Crash Answer
  | .getContextSize => (r.getContextSize assertionsEnabled).map .contextSize
  | .getChatTemplate => (r.getChatTemplate assertionsEnabled).map .chatTemplate

def readMetadata (assertionsEnabled : Bool) (env : ReadEnv) (file : Option Bytes)
    (getters : List Getter) : Except Crash (List Answer) := do
  let r ← LLMReader.loadModel env file
  getters.mapM (Getter.call assertionsEnabled r)

/-! ## The condition -/

/-- The pair found under the key, if any, has one element of this type. -/
def SingleUnder (kv : List GgufKv) (key : Bytes) (type : GgufType) : Prop :=
  ∀ keyId entry, findKey kv key = some keyId → kv[keyId]? = some entry → entry.Single type

/-- The keys that the getter reads are missing, or one string or one `uint32_t`
is stored under them. -/
def Getter.Readable (kv : List GgufKv) : Getter → Prop
  | .getContextSize =>
    SingleUnder kv keyArchitecture .string ∧
      ∀ keyId architecture, findKey kv keyArchitecture = some keyId →
        getValStr kv keyId = .ok architecture →
        SingleUnder kv (contextLengthKey architecture) .uint32
  | .getChatTemplate => SingleUnder kv keyChatTemplate .string

/-! ## What is read -/

theorem readKey_ok_iff {α : Type} {kv : List GgufKv} {key : Bytes} {missing : α}
    {read : Nat → Except Crash α} :
    (∃ result, readKey kv key missing read = .ok result) ↔
      ∀ keyId, findKey kv key = some keyId → ∃ result, read keyId = .ok result := by
  cases found : findKey kv key with
  | none => simp [readKey, found]
  | some keyId => simp [readKey, found]

theorem singleUnder_iff {α : Type} {kv : List GgufKv} {key : Bytes} {type : GgufType}
    {read : Nat → Except Crash α}
    (reads : ∀ keyId entry, kv[keyId]? = some entry →
      ((∃ result, read keyId = .ok result) ↔ entry.Single type)) :
    (∀ keyId, findKey kv key = some keyId → ∃ result, read keyId = .ok result) ↔
      SingleUnder kv key type := by
  constructor
  · intro all keyId entry found at_id
    exact (reads keyId entry at_id).mp (all keyId found)
  · intro single keyId found
    obtain ⟨entry, at_id, _⟩ := findKey_getElem? found
    exact (reads keyId entry at_id).mpr (single keyId entry found at_id)

theorem nativeChatTemplate_ok_iff (kv : List GgufKv) :
    (∃ text, nativeChatTemplate kv = .ok text) ↔ Getter.Readable kv .getChatTemplate := by
  rw [nativeChatTemplate, readKey_ok_iff]
  exact singleUnder_iff fun _ _ at_id => getValStr_ok_iff at_id

theorem map_ok_iff {α β : Type} {outcome : Except Crash α} {f : α → β} :
    (∃ result, outcome.map f = .ok result) ↔ ∃ value, outcome = .ok value := by
  cases outcome <;> simp [Except.map]

theorem bind_ok_iff {α β : Type} {outcome : Except Crash α} {next : α → Except Crash β} :
    (∃ result, outcome >>= next = .ok result) ↔
      ∃ value, outcome = .ok value ∧ ∃ result, next value = .ok result := by
  cases outcome with
  | error crash => simp [bind, Except.bind]
  | ok value => simp [bind, Except.bind]

theorem nativeContextLength_ok_iff (kv : List GgufKv) (architecture : Bytes) :
    (∃ length, nativeContextLength kv architecture = .ok length) ↔
      SingleUnder kv (contextLengthKey architecture) .uint32 := by
  rw [nativeContextLength, readKey_ok_iff]
  exact singleUnder_iff fun _ _ at_id => map_ok_iff.trans (getValU32_ok_iff at_id)

theorem nativeContextSize_ok_iff (kv : List GgufKv) :
    (∃ size, nativeContextSize kv = .ok size) ↔ Getter.Readable kv .getContextSize := by
  rw [nativeContextSize, readKey_ok_iff, Getter.Readable,
    ← singleUnder_iff fun _ _ at_id => getValStr_ok_iff at_id]
  constructor
  · refine fun all => ⟨fun keyId found => ?_, fun keyId architecture found text => ?_⟩
    · obtain ⟨architecture, text, _⟩ := bind_ok_iff.mp (all keyId found)
      exact ⟨architecture, text⟩
    · obtain ⟨_, text', length⟩ := bind_ok_iff.mp (all keyId found)
      rw [text] at text'
      cases text'
      exact (nativeContextLength_ok_iff kv architecture).mp length
  · rintro ⟨texts, lengths⟩ keyId found
    obtain ⟨architecture, text⟩ := texts keyId found
    exact bind_ok_iff.mpr ⟨architecture, text,
      (nativeContextLength_ok_iff kv architecture).mpr (lengths keyId architecture found text)⟩

theorem Getter.call_ok_iff (r : LLMReader) (getter : Getter) :
    (∃ answer, getter.call false r = .ok answer) ↔
      ∃ ctx, r.nativeHandle = some ctx ∧ getter.Readable ctx.kv := by
  have native : ∀ {α β : Type} (read : List GgufKv → Except Crash α) (result : α → KotlinResult β),
      (∃ answer, r.asserted false read result = .ok answer) ↔
        ∃ ctx, r.nativeHandle = some ctx ∧ ∃ value, read ctx.kv = .ok value := by
    intro α β read result
    simp only [LLMReader.asserted, Bool.false_eq_true, false_and, if_false]
    rw [map_ok_iff]
    cases r.nativeHandle <;> simp [withContext]
  cases getter with
  | getContextSize =>
      rw [Getter.call, map_ok_iff, LLMReader.getContextSize, native]
      simp only [nativeContextSize_ok_iff]
  | getChatTemplate =>
      rw [Getter.call, map_ok_iff, LLMReader.getChatTemplate, native]
      simp only [nativeChatTemplate_ok_iff]

theorem mapM_ok_iff {α β : Type} {f : α → Except Crash β} :
    ∀ {l : List α}, (∃ results, l.mapM f = .ok results) ↔ ∀ a ∈ l, ∃ result, f a = .ok result := by
  intro l
  induction l with
  | nil => simp [pure, Except.pure]
  | cons a rest ih =>
      rw [List.mapM_cons, bind_ok_iff, List.forall_mem_cons, ← ih]
      constructor
      · rintro ⟨value, first, later⟩
        obtain ⟨values, later, _⟩ := bind_ok_iff.mp later
        exact ⟨⟨value, first⟩, ⟨values, later⟩⟩
      · rintro ⟨⟨value, first⟩, ⟨values, later⟩⟩
        exact ⟨value, first, bind_ok_iff.mpr ⟨values, later, _, rfl⟩⟩

def plainEnv : ReadEnv where
  stringAllocated := fun _ => true
  vectorAllocated := fun _ _ => true
  maxKv := 0x1000000
  maxTensors := 0x1000000
  divisionTraps := true
  seekable := true

/-- A file without tensors whose chat template is the `uint32_t` 0. -/
def numberedFile : Bytes :=
  headerBytes 3 0 1 ++ (stringBytes keyChatTemplate ++
    (leBytes 4 GgufType.uint32.code ++ leBytes 4 0))

/-- A file without pairs whose only tensor has the dimensions 1 and 0. -/
def zeroFile : Bytes :=
  headerBytes 3 1 0 ++ (stringBytes (lit "t") ++ dimsBytes [1, 0])

end MineGPT.Llm
