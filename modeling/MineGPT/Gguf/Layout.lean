import MineGPT.Gguf.Read

/-!
# Which files are accepted, and which end the process

The layout of a GGUF file as formats of its strings, values, pairs and tensor infos,
stated without the readers.  Two theorems compare the readers with it: a context is
returned exactly for the files laid out as `Accepts` says, and the process ends exactly
on the files that begin as one of the four cases of `Fatal`.
-/

set_option autoImplicit false

namespace MineGPT.Gguf

open MineGPT.Lib MineGPT.Lib.ByteString MineGPT.Lib.Reader

/-! ## Strings and values -/

def stringBytes (text : Bytes) : Bytes := leBytes 8 text.length ++ text

/-- A length of eight bytes that can be allocated. -/
def ReadEnv.Holds (env : ReadEnv) (text : Bytes) : Prop :=
  text.length < 256 ^ 8 ∧ env.stringAllocated text.length = true

def GgufValue.header (value : GgufValue) : Bytes :=
  if value.isArray = true then
    leBytes 4 GgufType.array.code ++ leBytes 4 value.type.code ++ leBytes 8 value.count
  else leBytes 4 value.type.code

/-- The elements; of a `bool` any byte but 0 is read as `true`. -/
def GgufValue.Content (env : ReadEnv) (value : GgufValue) (raw : Bytes) : Prop :=
  (value.isArray = true → env.vectorAllocated value.type value.count = true) ∧
    if value.type = .string then
      value.data = [] ∧ (∀ text ∈ value.dataString, env.Holds text) ∧
        raw = value.dataString.flatMap stringBytes
    else
      value.dataString = [] ∧
        value.data = if value.type = .bool then normalizeBool raw else raw

def GgufValue.Stored (env : ReadEnv) (value : GgufValue) (bytes : Bytes) : Prop :=
  (value.isArray = true → value.count < 256 ^ 8) ∧
    ∃ raw, value.Content env raw ∧ bytes = value.header ++ raw

def GgufKv.Stored (env : ReadEnv) (entry : GgufKv) (bytes : Bytes) : Prop :=
  env.Holds entry.key ∧
    ∃ back, entry.toGgufValue.Stored env back ∧ bytes = stringBytes entry.key ++ back

/-! ## Tensor infos -/

def dimsBytes (dims : List Nat) : Bytes := leBytes 4 dims.length ++ dims.flatMap (leBytes 8)

def Dims (dims : List Nat) : Prop := dims.length ≤ ggmlMaxDims ∧ ∀ ne ∈ dims, ne ≤ int64Max

/-- The check of the number of elements divides by zero: by `ne[1]`, or behind a
comparison that passes by `ne[2]` or by `ne[3]`. -/
def Shape.ZeroDivided (shape : Shape) : Prop :=
  shape.ne1 = 0 ∨ shape.ne0 < int64Max / shape.ne1 ∧
    (shape.ne2 = 0 ∨ shape.ne0 * shape.ne1 < int64Max / shape.ne2 ∧ shape.ne3 = 0)

/-- The quotients exceed the products they are compared with. -/
def Shape.Representable (shape : Shape) : Prop :=
  shape.ne0 < int64Max / shape.ne1 ∧ shape.ne0 * shape.ne1 < int64Max / shape.ne2 ∧
    shape.ne0 * shape.ne1 * shape.ne2 < int64Max / shape.ne3

instance (shape : Shape) : Decidable shape.Representable :=
  inferInstanceAs (Decidable (_ ∧ _ ∧ _))

def TensorName (env : ReadEnv) (text : Bytes) : Prop :=
  env.Holds text ∧ text.length < ggmlMaxName

def TensorType (shape : Shape) (type : Nat) : Prop :=
  type < ggmlTypeCount ∧ ggmlBlckSize type ≠ 0 ∧ shape.ne0 % ggmlBlckSize type = 0

def GgufTensorInfo.Stored (env : ReadEnv) (info : GgufTensorInfo) (bytes : Bytes) : Prop :=
  ∃ text dims, TensorName env text ∧ info.name = cstr text ∧
    Dims dims ∧ info.shape = Shape.ofDims dims ∧ info.shape.Representable ∧
    TensorType info.shape info.type ∧ info.offset < 256 ^ 8 ∧
    bytes = stringBytes text ++ (dimsBytes dims ++ (leBytes 4 info.type ++ leBytes 8 info.offset))

/-! ## Files -/

def headerBytes (version nTensors nKv : Nat) : Bytes :=
  ggufMagic ++ (leBytes 4 version ++ (leBytes 8 nTensors ++ leBytes 8 nKv))

def Count (bound n : Nat) : Prop := n < 0x8000000000000000 ∧ n ≤ bound

structure Announced (env : ReadEnv) (version nTensors nKv : Nat) : Prop where
  version : version ≠ 1 ∧ version ≤ ggufVersion
  tensors : Count env.maxTensors nTensors
  pairs : Count env.maxKv nKv

structure PairsStored (env : ReadEnv) (kv : List GgufKv) (bytes : Bytes) : Prop where
  distinct : (kv.map GgufKv.key).Nodup
  stored : Concat (GgufKv.Stored env) kv bytes

structure InfosStored (env : ReadEnv) (info : List GgufTensorInfo) (bytes : Bytes) : Prop where
  distinct : (info.map GgufTensorInfo.name).Nodup
  stored : Concat (GgufTensorInfo.Stored env) info bytes

/-- The pairs give this alignment, and it is a power of two. -/
def Aligned (kv : List GgufKv) (alignment : Nat) : Prop :=
  contextAlignment kv = .ok alignment ∧ alignment.isPowerOfTwo

def Accepts (env : ReadEnv) (ctx : GgufContext) (bytes : Bytes) : Prop :=
  ∃ pairs infos rest,
    Announced env ctx.version ctx.info.length ctx.kv.length ∧
    PairsStored env ctx.kv pairs ∧ Aligned ctx.kv ctx.alignment ∧
    InfosStored env ctx.info infos ∧ env.seekable = true ∧
    consecutive (UInt64.ofNat ctx.alignment) 0 ctx.info = true ∧
    bytes = headerBytes ctx.version ctx.info.length ctx.kv.length ++ (pairs ++ (infos ++ rest))

inductive Fatal (env : ReadEnv) : Bytes → Prop where
  /-- A pair has an empty key, and its value can be read. -/
  | emptyKey {version nTensors nKv : Nat} {kv : List GgufKv} {pairs raw : Bytes}
      {value : GgufValue} (rest : Bytes) (announced : Announced env version nTensors nKv)
      (stored : PairsStored env kv pairs) (more : kv.length < nKv) (empty : env.Holds [])
      (readable : value.Stored env raw) :
      Fatal env (headerBytes version nTensors nKv ++ (pairs ++ (stringBytes [] ++ (raw ++ rest))))
  /-- A string that is no array is longer than can be allocated. -/
  | longText {version nTensors nKv size : Nat} {kv : List GgufKv} {pairs key : Bytes}
      (rest : Bytes) (announced : Announced env version nTensors nKv)
      (stored : PairsStored env kv pairs) (more : kv.length < nKv) (held : env.Holds key)
      (fresh : key ∉ kv.map GgufKv.key) (eightBytes : size < 256 ^ 8)
      (tooLong : env.stringAllocated size = false) :
      Fatal env (headerBytes version nTensors nKv ++ (pairs ++ (stringBytes key ++
        (leBytes 4 GgufType.string.code ++ (leBytes 8 size ++ rest)))))
  /-- `general.alignment` is not one `uint32_t`. -/
  | alignment {version nTensors keyId : Nat} {kv : List GgufKv} {entry : GgufKv} {pairs : Bytes}
      (rest : Bytes) (announced : Announced env version nTensors kv.length)
      (stored : PairsStored env kv pairs) (found : findKey kv keyGeneralAlignment = some keyId)
      (at_id : kv[keyId]? = some entry) (other : ¬ entry.Single .uint32) :
      Fatal env (headerBytes version nTensors kv.length ++ (pairs ++ rest))
  /-- A dimension of a tensor is zero, not the first one. -/
  | zeroDimension {version nTensors align : Nat} {kv : List GgufKv}
      {info : List GgufTensorInfo} {dims : List Nat} {pairs infos name : Bytes} (rest : Bytes)
      (announced : Announced env version nTensors kv.length) (stored : PairsStored env kv pairs)
      (aligned : Aligned kv align) (storedInfos : InfosStored env info infos)
      (more : info.length < nTensors) (named : TensorName env name)
      (fresh : cstr name ∉ info.map GgufTensorInfo.name) (shaped : Dims dims)
      (zero : (Shape.ofDims dims).ZeroDivided) (traps : env.divisionTraps = true) :
      Fatal env (headerBytes version nTensors kv.length ++ (pairs ++ (infos ++
        (stringBytes name ++ (dimsBytes dims ++ rest)))))

/-! ## What the readers take -/

theorem parses_readString (env : ReadEnv) (caught : Bool) :
    Parses (fun text bytes => env.Holds text ∧ bytes = stringBytes text)
      (readString env caught) := by
  have taken : ∀ size, Parses (fun text bytes => text = bytes ∧ bytes.length = size)
      (Reader.take size >>= fun text => (pure text.val : Reader Crash Bytes)) := by
    intro size
    refine ((parses_take size).bind fun taken => parses_pure taken.val).congr fun text bytes => ?_
    constructor
    · rintro ⟨taken, _, _, rfl, ⟨rfl, rfl⟩, rfl⟩
      simp [taken.property]
    · rintro ⟨rfl, length⟩
      exact ⟨⟨text, length⟩, text, [], rfl, ⟨rfl, rfl⟩, by simp⟩
  have body : ∀ size, Parses (fun text bytes => env.stringAllocated size = true ∧
      text = bytes ∧ bytes.length = size) (if env.stringAllocated size = true then do
        let text ← Reader.take size
        pure text.val
      else if caught = true then (Reader.fail : Reader Crash Bytes)
      else Reader.abort .uncaughtException) := by
    intro size bytes text rest
    split_ifs with allocated
    · simp only [taken size bytes text rest, allocated, true_and]
    · simp [allocated]
    · simp [allocated]
  refine ((parses_uint 8).bind body).congr fun text bytes => ?_
  constructor
  · rintro ⟨size, _, _, ⟨small, rfl⟩, ⟨allocated, rfl, rfl⟩, rfl⟩
    exact ⟨⟨small, allocated⟩, rfl⟩
  · rintro ⟨⟨small, allocated⟩, rfl⟩
    exact ⟨text.length, _, _, ⟨small, rfl⟩, ⟨allocated, rfl, rfl⟩, rfl⟩

theorem aborts_readString {env : ReadEnv} {caught : Bool} {bytes : Bytes} :
    Aborts (readString env caught) bytes ↔
      caught = false ∧ ∃ size rest, size < 256 ^ 8 ∧ env.stringAllocated size = false ∧
        bytes = leBytes 8 size ++ rest := by
  rw [readString, aborts_bind]
  constructor
  · rintro (aborted | ⟨size, rest, read, aborted⟩)
    · exact absurd aborted not_aborts_uint
    · obtain ⟨_, ⟨small, rfl⟩, rfl⟩ := (parses_uint 8 _ _ _).mp read
      split_ifs at aborted with allocated isCaught
      · simp [aborts_bind] at aborted
      · exact absurd aborted not_aborts_fail
      · exact ⟨by simpa using isCaught, size, rest, small, by simpa using allocated, rfl⟩
  · rintro ⟨rfl, size, rest, small, tooLong, rfl⟩
    refine Or.inr ⟨size, rest, yields_uint small rest, ?_⟩
    simp [tooLong]

theorem parses_texts (env : ReadEnv) (n : Nat) :
    Parses (fun texts bytes => texts.length = n ∧ (∀ text ∈ texts, env.Holds text) ∧
      bytes = texts.flatMap stringBytes) (Reader.times n (readString env true)) := by
  refine ((parses_readString env true).times n).congr fun texts bytes => ?_
  rw [concat_iff]

theorem numberValue_count {type : GgufType} {isArray : Bool} {n : Nat}
    (notString : type ≠ .string) (notArray : type ≠ .array) (scalar : isArray = true ∨ n = 1)
    (data : {bytes : Bytes // bytes.length = n * type.size}) :
    (numberValue type isArray n notString notArray scalar data).count = n := by
  have length : (numberValue type isArray n notString notArray scalar data).data.length =
      n * type.size := by
    simp only [numberValue]
    split
    · rw [normalizeBool, List.length_map]
      exact data.property
    · exact data.property
  have number : (numberValue type isArray n notString notArray scalar data).type ≠ .string :=
    notString
  rw [GgufValue.count, if_neg number, length]
  exact Nat.mul_div_cancel n (GgufType.size_pos notString notArray)

theorem GgufValue.Content.length {env : ReadEnv} {value : GgufValue} {raw : Bytes}
    (content : value.Content env raw) (number : value.type ≠ .string) :
    raw.length = value.count * value.type.size := by
  obtain ⟨n, length, -⟩ := value.numbers number
  have positive := GgufType.size_pos number value.notArray
  obtain ⟨-, content⟩ := content
  rw [if_neg number] at content
  have same : value.data.length = raw.length := by
    rw [content.2]
    split_ifs
    · exact List.length_map _
    · rfl
  rw [GgufValue.count, if_neg number, ← same, length, Nat.mul_div_cancel n positive]

theorem parses_number {env : ReadEnv} {type : GgufType} {isArray : Bool} {n : Nat}
    (notString : type ≠ .string) (notArray : type ≠ .array) (scalar : isArray = true ∨ n = 1)
    (allocated : isArray = true → env.vectorAllocated type n = true) :
    Parses (fun value bytes => (value.type = type ∧ value.isArray = isArray ∧ value.count = n) ∧
        value.Content env bytes)
      (Reader.take (n * type.size) >>= fun data =>
        (pure (numberValue type isArray n notString notArray scalar data) :
          Reader Crash GgufValue)) := by
  refine ((parses_take _).bind fun data => parses_pure _).congr fun value bytes => ?_
  constructor
  · rintro ⟨data, _, _, rfl, ⟨rfl, rfl⟩, rfl⟩
    have count := numberValue_count notString notArray scalar data
    refine ⟨⟨rfl, rfl, count⟩, fun array => ?_, ?_⟩
    · rw [count]
      exact allocated array
    · have number : (numberValue type isArray n notString notArray scalar data).type ≠ .string :=
        notString
      rw [if_neg number, List.append_nil]
      exact ⟨rfl, rfl⟩
  · rintro ⟨⟨rfl, rfl, rfl⟩, content⟩
    refine ⟨⟨bytes, content.length notString⟩, bytes, [], rfl, ⟨?_, rfl⟩, by simp⟩
    have data := content.2
    rw [if_neg notString] at data
    exact GgufValue.ext rfl rfl data.2 data.1

theorem parses_stringArray {env : ReadEnv} {n : Nat}
    (allocated : env.vectorAllocated .string n = true) :
    Parses (fun value bytes => (value.type = .string ∧ value.isArray = true ∧ value.count = n) ∧
        value.Content env bytes)
      (Reader.times n (readString env true) >>= fun texts =>
        (pure (stringArray texts) : Reader Crash GgufValue)) := by
  refine ((parses_texts env n).bind fun texts => parses_pure _).congr fun value bytes => ?_
  constructor
  · rintro ⟨texts, _, _, ⟨rfl, held, rfl⟩, ⟨rfl, rfl⟩, rfl⟩
    exact ⟨⟨rfl, rfl, rfl⟩, fun _ => allocated, rfl, held, List.append_nil _⟩
  · rintro ⟨⟨string, isArray, count⟩, -, content⟩
    rw [if_pos string] at content
    rw [GgufValue.count, if_pos string] at count
    refine ⟨value.dataString, bytes, [], ⟨count, content.2⟩, ⟨?_, rfl⟩, by simp⟩
    exact GgufValue.ext isArray string content.1 rfl

theorem parses_stringValue (env : ReadEnv) :
    Parses (fun value bytes => (value.type = .string ∧ value.isArray = false ∧ value.count = 1) ∧
        value.Content env bytes)
      (readString env false >>= fun text =>
        (pure (stringValue text) : Reader Crash GgufValue)) := by
  refine ((parses_readString env false).bind fun text => parses_pure _).congr
    fun value bytes => ?_
  constructor
  · rintro ⟨text, _, _, ⟨held, rfl⟩, ⟨rfl, rfl⟩, rfl⟩
    refine ⟨⟨rfl, rfl, rfl⟩, fun array => absurd array Bool.false_ne_true, rfl, ?_, ?_⟩
    · simpa [stringValue] using held
    · simp [stringValue]
  · rintro ⟨⟨string, isArray, count⟩, -, content⟩
    rw [if_pos string] at content
    rw [GgufValue.count, if_pos string] at count
    obtain ⟨text, single⟩ := List.length_eq_one_iff.mp count
    rw [single] at content
    refine ⟨text, bytes, [], ⟨content.2.1 text (by simp), by simpa using content.2.2⟩,
      ⟨?_, rfl⟩, by simp⟩
    exact GgufValue.ext isArray string content.1 single

theorem parses_readValue {env : ReadEnv} {type : GgufType} {isArray : Bool} {n : Nat}
    (scalar : isArray = true ∨ n = 1) :
    Parses (fun value bytes => (value.type = type ∧ value.isArray = isArray ∧ value.count = n) ∧
      value.Content env bytes) (readValue env type isArray n) := by
  intro bytes value rest
  unfold readValue
  split_ifs with notArray notString array allocated array allocated
  · refine ⟨fun read => absurd read not_yields_fail, ?_⟩
    rintro ⟨_, ⟨⟨rfl, -, -⟩, -⟩, -⟩
    exact absurd notArray value.notArray
  · subst notString array
    exact parses_stringArray allocated bytes value rest
  · subst notString array
    refine ⟨fun read => absurd read not_yields_fail, ?_⟩
    rintro ⟨_, ⟨⟨string, isArray, count⟩, content⟩, -⟩
    have held := content.1 isArray
    rw [string, count] at held
    exact absurd held allocated
  · subst notString
    obtain rfl : n = 1 := scalar.resolve_left array
    obtain rfl : isArray = false := by simpa using array
    exact parses_stringValue env bytes value rest
  · exact parses_number notString notArray (Or.inl array) (fun _ => allocated) bytes value rest
  · refine ⟨fun read => absurd read not_yields_fail, ?_⟩
    rintro ⟨_, ⟨⟨type, isArray, count⟩, content⟩, -⟩
    have held := content.1 (isArray.trans array)
    rw [type, count] at held
    exact absurd held allocated
  · obtain rfl : n = 1 := scalar.resolve_left array
    exact parses_number notString notArray (Or.inr rfl) (fun isArray => absurd isArray array)
      bytes value rest

theorem aborts_readValue {env : ReadEnv} {type : GgufType} {isArray : Bool} {n : Nat}
    {bytes : Bytes} :
    Aborts (readValue env type isArray n) bytes ↔
      type = .string ∧ isArray = false ∧ ∃ size rest, size < 256 ^ 8 ∧
        env.stringAllocated size = false ∧ bytes = leBytes 8 size ++ rest := by
  have caught : ∀ bytes, ¬ Aborts (readString env true) bytes := by
    intro bytes aborted
    exact absurd (aborts_readString.mp aborted).1 (by decide)
  unfold readValue
  split_ifs with notArray notString array allocated array allocated
  · simp [notArray]
  · simp [aborts_bind, not_aborts_times caught, array]
  · simp [array]
  · simp [aborts_bind, aborts_readString, notString, array]
  · simp [aborts_bind, notString]
  · simp [notString]
  · simp [aborts_bind, notString]

def TypeStored (result : Nat × Bool × Nat) (bytes : Bytes) : Prop :=
  (result.2 = (false, 1) ∧ result.1 ≠ GgufType.array.code ∧ result.1 < 256 ^ 4 ∧
    bytes = leBytes 4 result.1) ∨
  (result.2.1 = true ∧ result.1 < 256 ^ 4 ∧ result.2.2 < 256 ^ 8 ∧
    bytes = leBytes 4 GgufType.array.code ++ leBytes 4 result.1 ++ leBytes 8 result.2.2)

theorem TypeStored.scalar {result : Nat × Bool × Nat} {bytes : Bytes}
    (stored : TypeStored result bytes) : result.2.1 = true ∨ result.2.2 = 1 := by
  rcases stored with ⟨single, -⟩ | ⟨array, -⟩
  · exact Or.inr (by rw [single])
  · exact Or.inl array

theorem parses_arrayType :
    Parses (fun (result : Nat × Bool × Nat) bytes => result.2.1 = true ∧ result.1 < 256 ^ 4 ∧
      result.2.2 < 256 ^ 8 ∧ bytes = leBytes 4 result.1 ++ leBytes 8 result.2.2) (do
        let elements ← Reader.uint 4
        let n ← Reader.uint 8
        (pure (elements, true, n) : Reader Crash (Nat × Bool × Nat))) := by
  refine ((parses_uint 4).bind fun elements => (parses_uint 8).bind fun n =>
    parses_pure (elements, true, n)).congr fun result bytes => ?_
  constructor
  · rintro ⟨elements, _, _, ⟨small, rfl⟩, ⟨n, _, _, ⟨less, rfl⟩, ⟨rfl, rfl⟩, rfl⟩, rfl⟩
    exact ⟨rfl, small, less, by simp⟩
  · obtain ⟨elements, isArray, n⟩ := result
    rintro ⟨rfl, small, less, rfl⟩
    exact ⟨elements, _, _, ⟨small, rfl⟩, ⟨n, _, [], ⟨less, rfl⟩, ⟨rfl, rfl⟩, by simp⟩, rfl⟩

theorem parses_readType : Parses TypeStored readType := by
  have body : ∀ code, Parses (fun result bytes =>
      (code ≠ GgufType.array.code ∧ result = (code, false, 1) ∧ bytes = []) ∨
      (code = GgufType.array.code ∧ result.2.1 = true ∧ result.1 < 256 ^ 4 ∧
        result.2.2 < 256 ^ 8 ∧ bytes = leBytes 4 result.1 ++ leBytes 8 result.2.2))
      (if GgufType.ofCode code = some .array then do
        let elements ← Reader.uint 4
        let n ← Reader.uint 8
        pure (elements, true, n)
      else (pure (code, false, 1) : Reader Crash (Nat × Bool × Nat))) := by
    intro code bytes result rest
    simp only [GgufType.ofCode_eq_some_iff]
    split_ifs with isArray
    · simp only [parses_arrayType bytes result rest, isArray, true_and, ne_eq, not_true_eq_false,
        false_and, false_or]
    · simp only [parses_pure (code, false, 1) bytes result rest, isArray, ne_eq,
        not_false_eq_true, true_and, false_and, or_false]
  refine ((parses_uint 4).bind body).congr fun result bytes => ?_
  constructor
  · rintro ⟨_, _, _, ⟨small, rfl⟩, (⟨single, rfl, rfl⟩ | ⟨rfl, array, less, fits, rfl⟩), rfl⟩
    · exact Or.inl ⟨rfl, single, small, List.append_nil _⟩
    · exact Or.inr ⟨array, less, fits, (List.append_assoc _ _ _).symm⟩
  · obtain ⟨code, isArray, n⟩ := result
    rintro (⟨single, other, small, rfl⟩ | ⟨array, less, fits, rfl⟩)
    · obtain ⟨rfl, rfl⟩ := Prod.mk.inj single
      exact ⟨code, _, [], ⟨small, rfl⟩, Or.inl ⟨other, rfl, rfl⟩, by simp⟩
    · exact ⟨_, _, _, ⟨by decide, rfl⟩, Or.inr ⟨rfl, array, less, fits, rfl⟩, by simp⟩

theorem GgufType.code_lt (type : GgufType) : type.code < 256 ^ 4 := by
  cases type <;> decide

theorem GgufType.code_ne_array {type : GgufType} (other : type ≠ .array) :
    type.code ≠ GgufType.array.code := by
  intro same
  exact other (Option.some.inj ((ofCode_code type).symm.trans (ofCode_eq_some_iff.mpr same)))

theorem GgufValue.count_scalar {value : GgufValue} (single : value.isArray = false) :
    value.count = 1 := by
  by_cases string : value.type = .string
  · rw [count, if_pos string]
    exact (value.strings string).resolve_left (by simp [single])
  · obtain ⟨n, length, one⟩ := value.numbers string
    obtain rfl := one.resolve_left (by simp [single])
    rw [count, if_neg string, length]
    exact Nat.mul_div_cancel 1 (GgufType.size_pos string value.notArray)

theorem typeStored_iff (value : GgufValue) (bytes : Bytes) :
    TypeStored (value.type.code, value.isArray, value.count) bytes ↔
      (value.isArray = true → value.count < 256 ^ 8) ∧ bytes = value.header := by
  have small : value.type.code < 4294967296 := value.type.code_lt
  cases isArray : value.isArray with
  | true => simp [TypeStored, GgufValue.header, isArray, small]
  | false =>
      have other := GgufType.code_ne_array value.notArray
      have one := GgufValue.count_scalar isArray
      simp [TypeStored, GgufValue.header, isArray, small, other, one]

theorem parses_readTypedValue (env : ReadEnv) :
    Parses (GgufValue.Stored env) (readTypedValue env) := by
  intro bytes value rest
  rw [readTypedValue, yields_bind]
  constructor
  · rintro ⟨⟨code, isArray, n⟩, middle, read, readNext⟩
    obtain ⟨front, announced, rfl⟩ := (parses_readType _ _ _).mp read
    cases known : GgufType.ofCode code with
    | none => simp [known] at readNext
    | some type =>
        simp only [known] at readNext
        obtain rfl := GgufType.ofCode_eq_some_iff.mp known
        obtain ⟨back, ⟨⟨rfl, rfl, rfl⟩, content⟩, rfl⟩ :=
          (parses_readValue announced.scalar _ _ _).mp readNext
        obtain ⟨fits, rfl⟩ := (typeStored_iff value front).mp announced
        exact ⟨_, ⟨fits, back, content, rfl⟩, (List.append_assoc _ _ _).symm⟩
  · rintro ⟨_, ⟨fits, raw, content, rfl⟩, rfl⟩
    have announced := (typeStored_iff value value.header).mpr ⟨fits, rfl⟩
    refine ⟨_, raw ++ rest, (parses_readType _ _ _).mpr
      ⟨value.header, announced, List.append_assoc _ _ _⟩, ?_⟩
    simp only [GgufType.ofCode_code]
    exact (parses_readValue announced.scalar _ _ _).mpr ⟨raw, ⟨⟨rfl, rfl, rfl⟩, content⟩, rfl⟩

theorem aborts_readTypedValue {env : ReadEnv} {bytes : Bytes} :
    Aborts (readTypedValue env) bytes ↔
      ∃ size rest, size < 256 ^ 8 ∧ env.stringAllocated size = false ∧
        bytes = leBytes 4 GgufType.string.code ++ (leBytes 8 size ++ rest) := by
  rw [readTypedValue, aborts_bind]
  constructor
  · rintro (aborted | ⟨⟨code, isArray, n⟩, rest, read, aborted⟩)
    · simp only [readType, aborts_bind, not_aborts_uint, false_or] at aborted
      obtain ⟨code, middle, -, aborted⟩ := aborted
      split_ifs at aborted with array
      · simp [aborts_bind] at aborted
      · exact absurd aborted not_aborts_pure
    · obtain ⟨front, announced, rfl⟩ := (parses_readType _ _ _).mp read
      cases known : GgufType.ofCode code with
      | none => simp [known] at aborted
      | some type =>
          simp only [known] at aborted
          obtain ⟨rfl, rfl, size, rest', small, tooLong, rfl⟩ := aborts_readValue.mp aborted
          obtain rfl := GgufType.ofCode_eq_some_iff.mp known
          rcases announced with ⟨-, -, -, rfl⟩ | ⟨array, -⟩
          · exact ⟨size, rest', small, tooLong, rfl⟩
          · exact absurd array Bool.false_ne_true
  · rintro ⟨size, rest, small, tooLong, rfl⟩
    have announced : TypeStored (GgufType.string.code, false, 1)
        (leBytes 4 GgufType.string.code) :=
      Or.inl ⟨rfl, by decide, by decide, rfl⟩
    refine Or.inr ⟨_, leBytes 8 size ++ rest,
      (parses_readType _ _ _).mpr ⟨_, announced, rfl⟩, ?_⟩
    simp only [GgufType.ofCode_code]
    exact aborts_readValue.mpr ⟨rfl, rfl, size, rest, small, tooLong, rfl⟩

/-! ## Pairs -/

theorem parses_readKv (env : ReadEnv) (earlier : List GgufKv) :
    Parses (fun entry bytes => entry.key ∉ earlier.map GgufKv.key ∧ entry.Stored env bytes)
      (readKv env earlier) := by
  have named : ∀ key, Parses (fun (entry : GgufKv) bytes => entry.key = key ∧
      entry.toGgufValue.Stored env bytes) (readTypedValue env >>= fun value =>
        if keyNonempty : key ≠ [] then
          (pure { value with key := key, keyNonempty := keyNonempty } : Reader Crash GgufKv)
        else Reader.abort .ggmlAssert) := by
    intro key
    by_cases nonempty : key ≠ []
    · simp only [dif_pos nonempty]
      refine ((parses_readTypedValue env).bind fun value => parses_pure _).congr
        fun entry bytes => ?_
      constructor
      · rintro ⟨value, _, _, stored, ⟨rfl, rfl⟩, rfl⟩
        exact ⟨rfl, by simpa using stored⟩
      · rintro ⟨rfl, stored⟩
        exact ⟨entry.toGgufValue, bytes, [], stored, ⟨rfl, rfl⟩, by simp⟩
    · simp only [dif_neg nonempty]
      refine ((parses_readTypedValue env).bind fun value => parses_abort _).congr
        fun entry bytes => ?_
      constructor
      · rintro ⟨_, _, _, _, none, _⟩
        exact none.elim
      · rintro ⟨rfl, _⟩
        exact absurd entry.keyNonempty nonempty
  refine ((parses_readString env true).bind fun key => Parses.unless fun _ => named key).congr
    fun entry bytes => ?_
  constructor
  · rintro ⟨_, _, back, ⟨held, rfl⟩, ⟨fresh, rfl, stored⟩, rfl⟩
    exact ⟨fresh, held, back, stored, rfl⟩
  · rintro ⟨fresh, held, back, stored, rfl⟩
    exact ⟨entry.key, _, back, ⟨held, rfl⟩, ⟨fresh, rfl, stored⟩, rfl⟩

theorem aborts_readKv {env : ReadEnv} {earlier : List GgufKv} {bytes : Bytes} :
    Aborts (readKv env earlier) bytes ↔
      (∃ key size rest, env.Holds key ∧ key ∉ earlier.map GgufKv.key ∧ size < 256 ^ 8 ∧
        env.stringAllocated size = false ∧
        bytes = stringBytes key ++ (leBytes 4 GgufType.string.code ++ (leBytes 8 size ++ rest))) ∨
      ∃ (value : GgufValue) (raw rest : Bytes), env.Holds [] ∧ value.Stored env raw ∧
        bytes = stringBytes [] ++ (raw ++ rest) := by
  have caught : ¬ Aborts (readString env true) bytes := by
    intro aborted
    exact absurd (aborts_readString.mp aborted).1 (by decide)
  have nonempty : [] ∉ earlier.map GgufKv.key := by
    intro member
    obtain ⟨entry, -, empty⟩ := List.mem_map.mp member
    exact entry.keyNonempty empty
  rw [readKv, aborts_bind]
  constructor
  · rintro (aborted | ⟨key, middle, read, aborted⟩)
    · exact absurd aborted caught
    · obtain ⟨_, ⟨held, rfl⟩, rfl⟩ := (parses_readString env true _ _ _).mp read
      by_cases known : key ∈ earlier.map GgufKv.key
      · rw [if_pos known] at aborted
        exact absurd aborted not_aborts_fail
      · rw [if_neg known] at aborted
        rcases aborts_bind.mp aborted with aborted | ⟨value, rest, readValue, aborted⟩
        · obtain ⟨size, rest, small, tooLong, rfl⟩ := aborts_readTypedValue.mp aborted
          exact Or.inl ⟨key, size, rest, held, known, small, tooLong, rfl⟩
        · split_ifs at aborted with filled
          · exact absurd aborted not_aborts_pure
          · obtain rfl : key = [] := not_not.mp filled
            obtain ⟨raw, stored, rfl⟩ := (parses_readTypedValue env _ _ _).mp readValue
            exact Or.inr ⟨value, raw, rest, held, stored, rfl⟩
  · rintro (⟨key, size, rest, held, fresh, small, tooLong, rfl⟩ | ⟨value, raw, rest, held, stored, rfl⟩)
    · refine Or.inr ⟨key, _, (parses_readString env true _ _ _).mpr ⟨_, ⟨held, rfl⟩, rfl⟩, ?_⟩
      rw [if_neg fresh, aborts_bind]
      exact Or.inl (aborts_readTypedValue.mpr ⟨size, rest, small, tooLong, rfl⟩)
    · refine Or.inr ⟨[], _, (parses_readString env true _ _ _).mpr ⟨_, ⟨held, rfl⟩, rfl⟩, ?_⟩
      rw [if_neg nonempty, aborts_bind]
      refine Or.inr ⟨value, rest, (parses_readTypedValue env _ _ _).mpr ⟨raw, stored, rfl⟩, ?_⟩
      simp

/-! ## Tensor infos -/

theorem parses_readName (env : ReadEnv) (earlier : List GgufTensorInfo) :
    Parses (fun name bytes => name ∉ earlier.map GgufTensorInfo.name ∧
      ∃ text, TensorName env text ∧ name = cstr text ∧ bytes = stringBytes text)
      (readName env earlier) := by
  refine ((parses_readString env true).bind fun text => Parses.unless fun _ =>
    Parses.unless fun _ => parses_pure (cstr text)).congr fun name bytes => ?_
  constructor
  · rintro ⟨text, _, _, ⟨held, rfl⟩, ⟨short, fresh, rfl, rfl⟩, rfl⟩
    exact ⟨fresh, text, ⟨held, not_le.mp short⟩, rfl, List.append_nil _⟩
  · rintro ⟨fresh, text, ⟨held, short⟩, rfl, rfl⟩
    exact ⟨text, _, [], ⟨held, rfl⟩, ⟨not_le.mpr short, fresh, rfl, rfl⟩, by simp⟩

theorem not_aborts_readName {env : ReadEnv} {earlier : List GgufTensorInfo} {bytes : Bytes} :
    ¬ Aborts (readName env earlier) bytes := by
  rw [readName, aborts_bind]
  rintro (aborted | ⟨text, rest, -, aborted⟩)
  · exact absurd (aborts_readString.mp aborted).1 (by decide)
  · split_ifs at aborted <;> simp at aborted

theorem parses_readNe :
    Parses (fun ne bytes => ne ≤ int64Max ∧ bytes = leBytes 8 ne) readNe := by
  refine ((parses_uint 8).bind fun ne => Parses.unless fun _ => parses_pure ne).congr
    fun ne bytes => ?_
  constructor
  · rintro ⟨_, _, _, ⟨-, rfl⟩, ⟨bound, rfl, rfl⟩, rfl⟩
    exact ⟨not_lt.mp bound, List.append_nil _⟩
  · rintro ⟨bound, rfl⟩
    refine ⟨ne, _, [], ⟨?_, rfl⟩, ⟨not_lt.mpr bound, rfl, rfl⟩, by simp⟩
    exact lt_of_le_of_lt bound (by decide)

theorem not_aborts_readNe (bytes : Bytes) : ¬ Aborts readNe bytes := by
  rw [readNe, aborts_bind]
  rintro (aborted | ⟨ne, rest, -, aborted⟩)
  · exact not_aborts_uint aborted
  · split_ifs at aborted <;> simp at aborted

theorem parses_readDims : Parses (fun dims bytes => Dims dims ∧ bytes = dimsBytes dims) readDims := by
  refine ((parses_uint 4).bind fun nDims => Parses.unless fun _ =>
    parses_readNe.times nDims).congr fun dims bytes => ?_
  simp only [concat_iff]
  constructor
  · rintro ⟨_, _, _, ⟨-, rfl⟩, ⟨few, rfl, bounds, rfl⟩, rfl⟩
    exact ⟨⟨not_lt.mp few, bounds⟩, rfl⟩
  · rintro ⟨⟨few, bounds⟩, rfl⟩
    refine ⟨_, _, _, ⟨?_, rfl⟩, ⟨not_lt.mpr few, rfl, bounds, rfl⟩, rfl⟩
    exact lt_of_le_of_lt few (by decide)

theorem not_aborts_readDims {bytes : Bytes} : ¬ Aborts readDims bytes := by
  rw [readDims, aborts_bind]
  rintro (aborted | ⟨nDims, rest, -, aborted⟩)
  · exact not_aborts_uint aborted
  · split_ifs at aborted
    · exact not_aborts_fail aborted
    · exact not_aborts_times not_aborts_readNe nDims rest aborted

theorem int64MaxBy_zero {env : ReadEnv} (traps : env.divisionTraps = true) :
    int64MaxBy env 0 = .error .divisionByZero := by
  simp [int64MaxBy, traps]

theorem int64MaxBy_ok {env : ReadEnv} {ne : Nat} (safe : ne = 0 → env.divisionTraps = false) :
    int64MaxBy env ne = .ok (int64Max / ne) := by
  by_cases zero : ne = 0
  · simp [int64MaxBy, zero, safe zero]
  · simp [int64MaxBy, zero]

theorem tooManyElements_cases (env : ReadEnv) (shape : Shape) :
    (shape.ZeroDivided ∧ env.divisionTraps = true ∧
      shape.tooManyElements env = .error .divisionByZero) ∨
    ((shape.ZeroDivided → env.divisionTraps = false) ∧
      shape.tooManyElements env = .ok (decide (¬ shape.Representable))) := by
  obtain ⟨ne0, ne1, ne2, ne3⟩ := shape
  simp only [Shape.tooManyElements, Shape.ZeroDivided, Shape.Representable]
  by_cases safe1 : ne1 = 0 → env.divisionTraps = false
  swap
  · obtain ⟨rfl, traps⟩ : ne1 = 0 ∧ env.divisionTraps = true := by simpa using safe1
    rw [int64MaxBy_zero traps]
    exact Or.inl ⟨Or.inl rfl, traps, rfl⟩
  rw [int64MaxBy_ok safe1]
  by_cases over1 : int64Max / ne1 ≤ ne0
  · refine Or.inr ⟨fun zero => safe1 (zero.resolve_right fun passed => ?_), ?_⟩
    · exact absurd passed.1 (not_lt.mpr over1)
    · simp [bind, Except.bind, pure, Except.pure, over1]
  by_cases safe2 : ne2 = 0 → env.divisionTraps = false
  swap
  · obtain ⟨rfl, traps⟩ : ne2 = 0 ∧ env.divisionTraps = true := by simpa using safe2
    rw [int64MaxBy_zero traps]
    refine Or.inl ⟨Or.inr ⟨not_le.mp over1, Or.inl rfl⟩, traps, ?_⟩
    simp [bind, Except.bind, over1]
  rw [int64MaxBy_ok safe2]
  by_cases over2 : int64Max / ne2 ≤ ne0 * ne1
  · refine Or.inr ⟨fun zero => ?_, ?_⟩
    · rcases zero with zero | ⟨-, zero | ⟨passed, -⟩⟩
      · exact safe1 zero
      · exact safe2 zero
      · exact absurd passed (not_lt.mpr over2)
    · simp [bind, Except.bind, pure, Except.pure, over1, over2]
  by_cases safe3 : ne3 = 0 → env.divisionTraps = false
  swap
  · obtain ⟨rfl, traps⟩ : ne3 = 0 ∧ env.divisionTraps = true := by simpa using safe3
    rw [int64MaxBy_zero traps]
    refine Or.inl ⟨Or.inr ⟨not_le.mp over1, Or.inr ⟨not_le.mp over2, rfl⟩⟩, traps, ?_⟩
    simp [bind, Except.bind, over1, over2]
  rw [int64MaxBy_ok safe3]
  refine Or.inr ⟨fun zero => ?_, ?_⟩
  · rcases zero with zero | ⟨-, zero | ⟨-, zero⟩⟩
    · exact safe1 zero
    · exact safe2 zero
    · exact safe3 zero
  · simp [bind, Except.bind, pure, Except.pure, over1, over2, not_le.mp over1, not_le.mp over2]

theorem parses_readShape (env : ReadEnv) :
    Parses (fun shape bytes => ∃ dims, Dims dims ∧ shape = Shape.ofDims dims ∧
      shape.Representable ∧ bytes = dimsBytes dims) (readShape env) := by
  have checked : ∀ dims, Parses (fun shape bytes => shape = Shape.ofDims dims ∧
      shape.Representable ∧ bytes = [])
      (Reader.ofExcept ((Shape.ofDims dims).tooManyElements env) >>= fun tooMany =>
        if tooMany = true then Reader.fail
        else (pure (Shape.ofDims dims) : Reader Crash Shape)) := by
    intro dims bytes shape rest
    simp only [yields_bind, yields_ofExcept]
    rcases tooManyElements_cases env (Shape.ofDims dims) with ⟨zero, -, crash⟩ | ⟨-, outcome⟩
    · have short : ¬ (Shape.ofDims dims).Representable := by
        rintro ⟨first, second, third⟩
        rcases zero with zero | ⟨-, zero | ⟨-, zero⟩⟩
        · simp [zero] at first
        · simp [zero] at second
        · simp [zero] at third
      constructor
      · rintro ⟨_, _, ⟨read, -⟩, -⟩
        simp [crash] at read
      · rintro ⟨_, ⟨rfl, representable, -⟩, -⟩
        exact absurd representable short
    · constructor
      · rintro ⟨tooMany, middle, ⟨read, rfl⟩, readNext⟩
        obtain rfl := Except.ok.inj (outcome.symm.trans read)
        split_ifs at readNext with short
        · exact absurd readNext not_yields_fail
        · obtain ⟨rfl, rfl⟩ := yields_pure.mp readNext
          exact ⟨[], ⟨rfl, by simpa using short, rfl⟩, rfl⟩
      · rintro ⟨_, ⟨rfl, representable, rfl⟩, rfl⟩
        refine ⟨_, _, ⟨outcome, rfl⟩, ?_⟩
        simp [representable]
  refine (parses_readDims.bind checked).congr fun shape bytes => ?_
  constructor
  · rintro ⟨dims, _, _, ⟨shaped, rfl⟩, ⟨rfl, representable, rfl⟩, rfl⟩
    exact ⟨dims, shaped, rfl, representable, List.append_nil _⟩
  · rintro ⟨dims, shaped, rfl, representable, rfl⟩
    exact ⟨dims, _, [], ⟨shaped, rfl⟩, ⟨rfl, representable, rfl⟩, by simp⟩

theorem aborts_readShape {env : ReadEnv} {bytes : Bytes} :
    Aborts (readShape env) bytes ↔
      env.divisionTraps = true ∧ ∃ dims rest, Dims dims ∧ (Shape.ofDims dims).ZeroDivided ∧
        bytes = dimsBytes dims ++ rest := by
  rw [readShape, aborts_bind]
  constructor
  · rintro (aborted | ⟨dims, rest, read, aborted⟩)
    · exact absurd aborted not_aborts_readDims
    · obtain ⟨_, ⟨shaped, rfl⟩, rfl⟩ := (parses_readDims _ _ _).mp read
      rcases tooManyElements_cases env (Shape.ofDims dims) with ⟨zero, traps, -⟩ | ⟨-, outcome⟩
      · exact ⟨traps, dims, rest, shaped, zero, rfl⟩
      · rw [outcome, aborts_bind, aborts_ofExcept] at aborted
        rcases aborted with ⟨_, aborted⟩ | ⟨tooMany, _, -, aborted⟩
        · simp at aborted
        · split_ifs at aborted
          · exact absurd aborted not_aborts_fail
          · exact absurd aborted not_aborts_pure
  · rintro ⟨traps, dims, rest, shaped, zero, rfl⟩
    refine Or.inr ⟨dims, rest, (parses_readDims _ _ _).mpr ⟨_, ⟨shaped, rfl⟩, rfl⟩, ?_⟩
    rcases tooManyElements_cases env (Shape.ofDims dims) with ⟨-, -, crash⟩ | ⟨safe, -⟩
    · rw [aborts_bind, aborts_ofExcept]
      exact Or.inl ⟨_, crash⟩
    · simp [safe zero] at traps

theorem parses_readTensorType (shape : Shape) :
    Parses (fun type bytes => TensorType shape type ∧ bytes = leBytes 4 type)
      (readTensorType shape) := by
  refine ((parses_uint 4).bind fun type => Parses.unless fun _ => parses_pure type).congr
    fun type bytes => ?_
  simp only [not_or, not_le, not_not, TensorType]
  constructor
  · rintro ⟨_, _, _, ⟨-, rfl⟩, ⟨known, rfl, rfl⟩, rfl⟩
    exact ⟨known, List.append_nil _⟩
  · rintro ⟨known, rfl⟩
    refine ⟨type, _, [], ⟨?_, rfl⟩, ⟨known, rfl, rfl⟩, by simp⟩
    exact lt_trans known.1 (by decide)

theorem parses_readTensorInfo (env : ReadEnv) (earlier : List GgufTensorInfo) :
    Parses (fun info bytes => info.name ∉ earlier.map GgufTensorInfo.name ∧
      info.Stored env bytes) (readTensorInfo env earlier) := by
  refine ((parses_readName env earlier).bind fun name => (parses_readShape env).bind fun shape =>
    (parses_readTensorType shape).bind fun type => (parses_uint 8).bind fun offset =>
      parses_pure (GgufTensorInfo.mk name shape type offset)).congr fun info bytes => ?_
  constructor
  · rintro ⟨_, _, _, ⟨fresh, text, named, rfl, rfl⟩, ⟨_, _, _, ⟨dims, shaped, rfl, representable, rfl⟩,
      ⟨type, _, _, ⟨known, rfl⟩, ⟨offset, _, _, ⟨small, rfl⟩, ⟨rfl, rfl⟩, rfl⟩, rfl⟩, rfl⟩, rfl⟩
    exact ⟨fresh, text, dims, named, rfl, shaped, rfl, representable, known, small, by simp⟩
  · obtain ⟨name, shape, type, offset⟩ := info
    rintro ⟨fresh, text, dims, named, rfl, shaped, rfl, representable, known, small, rfl⟩
    exact ⟨_, _, _, ⟨fresh, text, named, rfl, rfl⟩, ⟨_, _, _, ⟨dims, shaped, rfl, representable, rfl⟩,
      ⟨type, _, _, ⟨known, rfl⟩, ⟨offset, _, [], ⟨small, rfl⟩, ⟨rfl, rfl⟩, by simp⟩, rfl⟩, rfl⟩, rfl⟩

theorem aborts_readTensorInfo {env : ReadEnv} {earlier : List GgufTensorInfo} {bytes : Bytes} :
    Aborts (readTensorInfo env earlier) bytes ↔
      env.divisionTraps = true ∧ ∃ name dims rest, TensorName env name ∧
        cstr name ∉ earlier.map GgufTensorInfo.name ∧ Dims dims ∧
        (Shape.ofDims dims).ZeroDivided ∧
        bytes = stringBytes name ++ (dimsBytes dims ++ rest) := by
  rw [readTensorInfo, aborts_bind]
  constructor
  · rintro (aborted | ⟨name, middle, read, aborted⟩)
    · exact absurd aborted not_aborts_readName
    obtain ⟨_, ⟨fresh, text, named, rfl, rfl⟩, rfl⟩ := (parses_readName env earlier _ _ _).mp read
    rcases aborts_bind.mp aborted with aborted | ⟨shape, rest, -, aborted⟩
    · obtain ⟨traps, dims, rest, shaped, zero, rfl⟩ := aborts_readShape.mp aborted
      exact ⟨traps, text, dims, rest, named, fresh, shaped, zero, rfl⟩
    · rcases aborts_bind.mp aborted with aborted | ⟨type, rest, -, aborted⟩
      · rw [readTensorType, aborts_bind] at aborted
        rcases aborted with aborted | ⟨type, rest, -, aborted⟩
        · exact absurd aborted not_aborts_uint
        · split_ifs at aborted
          · exact absurd aborted not_aborts_fail
          · exact absurd aborted not_aborts_pure
      · simp [aborts_bind] at aborted
  · rintro ⟨traps, name, dims, rest, named, fresh, shaped, zero, rfl⟩
    refine Or.inr ⟨cstr name, _, (parses_readName env earlier _ _ _).mpr
      ⟨_, ⟨fresh, name, named, rfl, rfl⟩, rfl⟩, ?_⟩
    rw [aborts_bind]
    exact Or.inl (aborts_readShape.mpr ⟨traps, dims, rest, shaped, zero, rfl⟩)

/-! ## The header -/

theorem parses_readCount (bound : Nat) :
    Parses (fun n bytes => Count bound n ∧ bytes = leBytes 8 n) (readCount bound) := by
  refine ((parses_uint 8).bind fun n => Parses.unless fun _ => parses_pure n).congr
    fun n bytes => ?_
  simp only [not_or, not_le, not_lt, Count]
  constructor
  · rintro ⟨_, _, _, ⟨-, rfl⟩, ⟨counted, rfl, rfl⟩, rfl⟩
    exact ⟨counted, List.append_nil _⟩
  · rintro ⟨counted, rfl⟩
    refine ⟨n, _, [], ⟨?_, rfl⟩, ⟨counted, rfl, rfl⟩, by simp⟩
    exact lt_trans counted.1 (by decide)

theorem parses_readVersion :
    Parses (fun version bytes => (version ≠ 1 ∧ version ≤ ggufVersion) ∧
      bytes = ggufMagic ++ leBytes 4 version) readVersion := by
  refine ((parses_take 4).bind fun magic => Parses.unless fun _ => (parses_uint 4).bind
    fun version => Parses.unless fun _ => parses_pure version).congr fun version bytes => ?_
  simp only [not_or, not_lt, not_not]
  constructor
  · rintro ⟨magic, _, _, rfl, ⟨same, _, _, _, ⟨-, rfl⟩, ⟨supported, rfl, rfl⟩, rfl⟩, rfl⟩
    exact ⟨supported, by rw [same, List.append_nil]⟩
  · rintro ⟨supported, rfl⟩
    refine ⟨⟨ggufMagic, rfl⟩, _, _, rfl, ⟨rfl, version, _, [], ⟨?_, rfl⟩,
      ⟨supported, rfl, rfl⟩, by simp⟩, rfl⟩
    exact lt_of_le_of_lt supported.2 (by decide)

theorem parses_readHeader (env : ReadEnv) :
    Parses (fun counts bytes => Announced env counts.1 counts.2.1 counts.2.2 ∧
      bytes = headerBytes counts.1 counts.2.1 counts.2.2) (readHeader env) := by
  refine (parses_readVersion.bind fun version => (parses_readCount _).bind fun nTensors =>
    (parses_readCount _).bind fun nKv => parses_pure (version, nTensors, nKv)).congr
    fun counts bytes => ?_
  constructor
  · rintro ⟨version, _, _, ⟨supported, rfl⟩, ⟨nTensors, _, _, ⟨tensors, rfl⟩,
      ⟨nKv, _, _, ⟨pairs, rfl⟩, ⟨rfl, rfl⟩, rfl⟩, rfl⟩, rfl⟩
    exact ⟨⟨supported, tensors, pairs⟩, by simp [headerBytes]⟩
  · obtain ⟨version, nTensors, nKv⟩ := counts
    rintro ⟨⟨supported, tensors, pairs⟩, rfl⟩
    exact ⟨version, _, _, ⟨supported, rfl⟩, ⟨nTensors, _, _, ⟨tensors, rfl⟩,
      ⟨nKv, _, [], ⟨pairs, rfl⟩, ⟨rfl, rfl⟩, rfl⟩, rfl⟩, by simp [headerBytes]⟩

theorem not_aborts_readCount {bound : Nat} {bytes : Bytes} : ¬ Aborts (readCount bound) bytes := by
  rw [readCount, aborts_bind]
  rintro (aborted | ⟨n, rest, -, aborted⟩)
  · exact not_aborts_uint aborted
  · split_ifs at aborted <;> simp at aborted

theorem not_aborts_readVersion {bytes : Bytes} : ¬ Aborts readVersion bytes := by
  rw [readVersion, aborts_bind]
  rintro (aborted | ⟨magic, rest, -, aborted⟩)
  · exact not_aborts_take aborted
  · by_cases other : magic.val ≠ ggufMagic
    · rw [if_pos other] at aborted
      exact not_aborts_fail aborted
    · rw [if_neg other, aborts_bind] at aborted
      rcases aborted with aborted | ⟨version, rest, -, aborted⟩
      · exact not_aborts_uint aborted
      · split_ifs at aborted <;> simp at aborted

theorem not_aborts_readHeader {env : ReadEnv} {bytes : Bytes} :
    ¬ Aborts (readHeader env) bytes := by
  simp only [readHeader, aborts_bind, not_aborts_readVersion, not_aborts_readCount,
    not_aborts_pure, false_or, and_false, exists_false, not_false_eq_true]

theorem parses_readAlignment (kv : List GgufKv) :
    Parses (fun alignment bytes => Aligned kv alignment ∧ bytes = []) (readAlignment kv) := by
  intro bytes alignment rest
  simp only [readAlignment, yields_bind, yields_ofExcept]
  have power : ∀ n : Nat, ¬ (n = 0 ∨ n &&& (n - 1) ≠ 0) ↔ n.isPowerOfTwo := by
    intro n
    rw [← Nat.ne_zero_and_sub_one_eq_zero_iff_isPowerOfTwo, not_or, not_not]
  constructor
  · rintro ⟨n, middle, ⟨read, rfl⟩, readNext⟩
    split_ifs at readNext with refused
    · exact absurd readNext not_yields_fail
    · obtain ⟨rfl, rfl⟩ := yields_pure.mp readNext
      exact ⟨[], ⟨⟨read, (power _).mp refused⟩, rfl⟩, rfl⟩
  · rintro ⟨_, ⟨⟨read, isPower⟩, rfl⟩, rfl⟩
    refine ⟨alignment, _, ⟨read, rfl⟩, ?_⟩
    rw [if_neg ((power _).mpr isPower), yields_pure]
    exact ⟨rfl, rfl⟩

theorem aborts_readAlignment {kv : List GgufKv} {bytes : Bytes} :
    Aborts (readAlignment kv) bytes ↔
      ∃ keyId entry, findKey kv keyGeneralAlignment = some keyId ∧ kv[keyId]? = some entry ∧
        ¬ entry.Single .uint32 := by
  have later : ∀ n, ¬ Aborts (if n = 0 ∨ n &&& (n - 1) ≠ 0 then
      (Reader.fail : Reader Crash Nat) else pure n) bytes := by
    intro n aborted
    split_ifs at aborted <;> simp at aborted
  have only : Aborts (readAlignment kv) bytes ↔
      ∃ crash, contextAlignment kv = .error crash := by
    rw [readAlignment, aborts_bind, aborts_ofExcept]
    refine or_iff_left ?_
    rintro ⟨n, rest, read, aborted⟩
    rw [(yields_ofExcept.mp read).2] at aborted
    exact later n aborted
  rw [only, contextAlignment]
  cases found : findKey kv keyGeneralAlignment with
  | none => simp
  | some keyId =>
      obtain ⟨entry, at_id, -⟩ := findKey_getElem? found
      have single := getValU32_ok_iff at_id
      constructor
      · rintro ⟨crash, failed⟩
        refine ⟨keyId, entry, rfl, at_id, fun isSingle => ?_⟩
        obtain ⟨n, read⟩ := single.mpr isSingle
        exact absurd (failed.symm.trans read) (by simp)
      · rintro ⟨keyId', entry', same, at_id', other⟩
        obtain rfl := Option.some.inj same
        obtain rfl := Option.some.inj (at_id.symm.trans at_id')
        cases read : getValU32 kv keyId with
        | error crash => exact ⟨crash, read⟩
        | ok n => exact absurd (single.mp ⟨n, read⟩) other

/-! ## The file -/

theorem yields_pairs {env : ReadEnv} {n : Nat} {kv : List GgufKv} {bytes rest : Bytes} :
    Yields (Reader.collect (readKv env) n []) bytes kv rest ↔
      ∃ front, kv.length = n ∧ PairsStored env kv front ∧ bytes = front ++ rest := by
  rw [yields_collect (parses_readKv env) n [] List.nodup_nil]
  constructor
  · rintro ⟨_, front, rfl, length, distinct, stored, rfl⟩
    exact ⟨front, length, ⟨distinct, stored⟩, rfl⟩
  · rintro ⟨front, length, ⟨distinct, stored⟩, rfl⟩
    exact ⟨kv, front, rfl, length, distinct, stored, rfl⟩

theorem yields_infos {env : ReadEnv} {n : Nat} {info : List GgufTensorInfo} {bytes rest : Bytes} :
    Yields (Reader.collect (readTensorInfo env) n []) bytes info rest ↔
      ∃ front, info.length = n ∧ InfosStored env info front ∧ bytes = front ++ rest := by
  rw [yields_collect (parses_readTensorInfo env) n [] List.nodup_nil]
  constructor
  · rintro ⟨_, front, rfl, length, distinct, stored, rfl⟩
    exact ⟨front, length, ⟨distinct, stored⟩, rfl⟩
  · rintro ⟨front, length, ⟨distinct, stored⟩, rfl⟩
    exact ⟨info, front, rfl, length, distinct, stored, rfl⟩

/-- A context is read exactly from the files that hold it. -/
theorem readContext_accepts (env : ReadEnv) (ctx : GgufContext) (bytes : Bytes) :
    (∃ rest, Yields (readContext env) bytes ctx rest) ↔ Accepts env ctx bytes := by
  simp only [readContext, yields_bind]
  constructor
  · rintro ⟨rest, ⟨version, nTensors, nKv⟩, _, readH, kv, _, readP, alignment, _, readA, info, _,
      readI, last⟩
    obtain ⟨_, ⟨announced, rfl⟩, rfl⟩ := (parses_readHeader env _ _ _).mp readH
    obtain ⟨pairs, rfl, storedPairs, rfl⟩ := yields_pairs.mp readP
    obtain ⟨_, ⟨aligned, rfl⟩, rfl⟩ := (parses_readAlignment kv _ _ _).mp readA
    obtain ⟨infos, rfl, storedInfos, rfl⟩ := yields_infos.mp readI
    split_ifs at last with refused
    · exact absurd last not_yields_fail
    · obtain ⟨rfl, rfl⟩ := yields_pure.mp last
      simp only [not_or, Bool.not_eq_false] at refused
      exact ⟨pairs, infos, _, announced, storedPairs, aligned, storedInfos, refused.1, refused.2,
        rfl⟩
  · rintro ⟨pairs, infos, rest, announced, storedPairs, aligned, storedInfos, seekable, placed, rfl⟩
    refine ⟨rest, (ctx.version, ctx.info.length, ctx.kv.length), _,
      (parses_readHeader env _ _ _).mpr ⟨_, ⟨announced, rfl⟩, rfl⟩, ctx.kv, _,
      yields_pairs.mpr ⟨pairs, rfl, storedPairs, rfl⟩, ctx.alignment, _,
      (parses_readAlignment ctx.kv _ _ _).mpr ⟨[], ⟨aligned, rfl⟩, rfl⟩, ctx.info, rest,
      yields_infos.mpr ⟨infos, rfl, storedInfos, rfl⟩, ?_⟩
    simp [seekable, placed]

/-- Reading ends the process exactly on the files that begin as one of the four cases. -/
theorem readContext_fatal (env : ReadEnv) (bytes : Bytes) :
    Aborts (readContext env) bytes ↔ Fatal env bytes := by
  rw [readContext, aborts_bind]
  constructor
  · rintro (aborted | ⟨⟨version, nTensors, nKv⟩, _, readH, aborted⟩)
    · exact absurd aborted not_aborts_readHeader
    obtain ⟨_, ⟨announced, rfl⟩, rfl⟩ := (parses_readHeader env _ _ _).mp readH
    rcases aborts_bind.mp aborted with inPairs | ⟨kv, _, readP, behindPairs⟩
    · obtain ⟨kv, pairs, rest, more, distinct, stored, stopped, rfl⟩ :=
        (aborts_collect (parses_readKv env) nKv [] List.nodup_nil).mp inPairs
      rcases aborts_readKv.mp stopped with
        ⟨key, size, rest, held, fresh, small, tooLong, rfl⟩ | ⟨value, raw, rest, held, readable, rfl⟩
      · exact .longText rest announced ⟨distinct, stored⟩ more held fresh small tooLong
      · exact .emptyKey rest announced ⟨distinct, stored⟩ more held readable
    obtain ⟨pairs, rfl, storedPairs, rfl⟩ := yields_pairs.mp readP
    rcases aborts_bind.mp behindPairs with inAlignment | ⟨alignment, _, readA, behindAlignment⟩
    · obtain ⟨keyId, entry, found, at_id, other⟩ := aborts_readAlignment.mp inAlignment
      exact .alignment _ announced storedPairs found at_id other
    obtain ⟨_, ⟨aligned, rfl⟩, rfl⟩ := (parses_readAlignment kv _ _ _).mp readA
    rcases aborts_bind.mp behindAlignment with inInfos | ⟨info, rest, -, atEnd⟩
    · obtain ⟨info, infos, rest, more, distinct, stored, stopped, rfl⟩ :=
        (aborts_collect (parses_readTensorInfo env) nTensors [] List.nodup_nil).mp inInfos
      obtain ⟨traps, name, dims, rest, named, fresh, shaped, zero, rfl⟩ :=
        aborts_readTensorInfo.mp stopped
      exact .zeroDimension rest announced storedPairs aligned ⟨distinct, stored⟩ more named fresh
        shaped zero traps
    · split_ifs at atEnd
      · exact absurd atEnd not_aborts_fail
      · exact absurd atEnd not_aborts_pure
  · intro fatal
    have behind : ∀ {version nTensors nKv : Nat} {later : Bytes},
        Announced env version nTensors nKv → Yields (readHeader env)
          (headerBytes version nTensors nKv ++ later) (version, nTensors, nKv) later :=
      fun announced => (parses_readHeader env _ _ _).mpr ⟨_, ⟨announced, rfl⟩, rfl⟩
    have rounds : ∀ {n : Nat} {bytes : Bytes},
        Aborts (Reader.collect (readKv env) n []) bytes ↔ _ :=
      aborts_collect (parses_readKv env) _ [] List.nodup_nil
    cases fatal with
    | emptyKey rest announced stored more empty readable =>
        refine Or.inr ⟨_, _, behind announced, aborts_bind.mpr (Or.inl ?_)⟩
        exact rounds.mpr ⟨_, _, _, more, stored.distinct, stored.stored,
          aborts_readKv.mpr (Or.inr ⟨_, _, rest, empty, readable, rfl⟩), rfl⟩
    | longText rest announced stored more held fresh small tooLong =>
        refine Or.inr ⟨_, _, behind announced, aborts_bind.mpr (Or.inl ?_)⟩
        exact rounds.mpr ⟨_, _, _, more, stored.distinct, stored.stored,
          aborts_readKv.mpr (Or.inl ⟨_, _, rest, held, fresh, small, tooLong, rfl⟩), rfl⟩
    | alignment rest announced stored found at_id other =>
        refine Or.inr ⟨_, _, behind announced, aborts_bind.mpr (Or.inr
          ⟨_, rest, yields_pairs.mpr ⟨_, rfl, stored, rfl⟩, aborts_bind.mpr (Or.inl ?_)⟩)⟩
        exact aborts_readAlignment.mpr ⟨_, _, found, at_id, other⟩
    | zeroDimension rest announced stored aligned storedInfos more named fresh shaped zero traps =>
        refine Or.inr ⟨_, _, behind announced, aborts_bind.mpr (Or.inr
          ⟨_, _, yields_pairs.mpr ⟨_, rfl, stored, rfl⟩, aborts_bind.mpr (Or.inr
            ⟨_, _, (parses_readAlignment _ _ _ _).mpr ⟨[], ⟨aligned, rfl⟩, rfl⟩,
              aborts_bind.mpr (Or.inl ?_)⟩)⟩)⟩
        exact (aborts_collect (parses_readTensorInfo env) _ [] List.nodup_nil).mpr
          ⟨_, _, _, more, storedInfos.distinct, storedInfos.stored, aborts_readTensorInfo.mpr
            ⟨traps, _, _, rest, named, fresh, shaped, zero, rfl⟩, rfl⟩

theorem ggufInitFromFile_error_iff {env : ReadEnv} {file : Option Bytes} :
    (∃ crash, ggufInitFromFile env file = .error crash) ↔
      ∃ bytes, file = some bytes ∧ Fatal env bytes := by
  cases file with
  | none => simp [ggufInitFromFile]
  | some bytes =>
      simp only [Option.some.injEq, exists_eq_left', ← readContext_fatal, Aborts,
        ggufInitFromFile]
      cases readContext env bytes with
      | error crash => simp
      | ok result => cases result <;> simp

theorem ggufInitFromFile_context_iff {env : ReadEnv} {file : Option Bytes} {ctx : GgufContext} :
    ggufInitFromFile env file = .ok (some ctx) ↔
      ∃ bytes, file = some bytes ∧ Accepts env ctx bytes := by
  cases file with
  | none => simp [ggufInitFromFile]
  | some bytes =>
      simp only [Option.some.injEq, exists_eq_left', ← readContext_accepts, Yields,
        ggufInitFromFile]
      cases readContext env bytes with
      | error crash => simp
      | ok result =>
          cases result with
          | none => simp
          | some pair => simp [Prod.ext_iff]

end MineGPT.Gguf
