import MineGPT.Gguf.Kv
import MineGPT.Lib.Format

/-!
# Reading a GGUF file

`gguf_init_from_file` with neither data nor tensors requested.  Each read can fail,
which makes the function return a null pointer; an assertion, an exception that
nothing catches or a division by zero ends the process.
-/

set_option autoImplicit false

namespace MineGPT.Gguf

open MineGPT.Lib MineGPT.Lib.ByteString

/-- What does not depend on the file alone. -/
structure ReadEnv where
  /-- Whether a `std::string` of this length can be allocated. -/
  stringAllocated : Nat → Bool
  /-- Whether a `std::vector` of this many elements can be allocated. -/
  vectorAllocated : GgufType → Nat → Bool
  /-- `SIZE_MAX/sizeof(gguf_kv)` -/
  maxKv : Nat
  /-- `SIZE_MAX/sizeof(gguf_tensor_info)` -/
  maxTensors : Nat
  /-- Whether dividing by zero ends the process, as on x86; on ARM the quotient is 0. -/
  divisionTraps : Bool
  /-- Whether `fseek` succeeds, which it does not on a pipe. -/
  seekable : Bool

def ggufMagic : Bytes := lit "GGUF"

def ggufVersion : Nat := 3

def ggufDefaultAlignment : Nat := 32

def keyGeneralAlignment : Bytes := lit "general.alignment"

/-- `gr.read(std::string &)`.  A length that cannot be allocated throws; where
the caller catches that, the read fails. -/
def readString (env : ReadEnv) (caught : Bool) : Reader Crash Bytes := do
  let size ← Reader.uint 8
  if env.stringAllocated size then
    let text ← Reader.take size
    pure text.val
  else if caught then Reader.fail
  else Reader.abort .uncaughtException

def normalizeBool (data : Bytes) : Bytes := data.map fun byte => if byte = 0 then 0 else 1

def stringValue (text : Bytes) : GgufValue where
  isArray := false
  type := .string
  data := []
  dataString := [text]
  notArray := by decide
  strings := fun _ => Or.inr rfl
  numbers := fun other => absurd rfl other

def stringArray (texts : List Bytes) : GgufValue where
  isArray := true
  type := .string
  data := []
  dataString := texts
  notArray := by decide
  strings := fun _ => Or.inl rfl
  numbers := fun other => absurd rfl other

def numberValue (type : GgufType) (isArray : Bool) (n : Nat)
    (notString : type ≠ .string) (notArray : type ≠ .array) (scalar : isArray = true ∨ n = 1)
    (data : {bytes : Bytes // bytes.length = n * type.size}) : GgufValue where
  isArray := isArray
  type := type
  data := if type = .bool then normalizeBool data else data
  dataString := []
  notArray := notArray
  strings := fun string => absurd string notString
  numbers := by
    refine fun _ => ⟨n, ?_, scalar⟩
    split
    · rw [normalizeBool, List.length_map]
      exact data.property
    · exact data.property

/-- `gguf_read_emplace_helper`, without the check of the key. -/
def readValue (env : ReadEnv) (type : GgufType) (isArray : Bool) (n : Nat) :
    Reader Crash GgufValue :=
  if notArray : type = .array then Reader.fail
  else if notString : type = .string then
    if isArray then
      -- the exceptions of an array are caught, those of its strings too
      if env.vectorAllocated type n then do
        let texts ← Reader.times n (readString env true)
        pure (stringArray texts)
      else Reader.fail
    else do
      let text ← readString env false
      pure (stringValue text)
  else if array : isArray = true then
    if env.vectorAllocated type n then do
      let data ← Reader.take (n * type.size)
      pure (numberValue type isArray n notString notArray (Or.inl array) data)
    else Reader.fail
  else do
    let data ← Reader.take (1 * type.size)
    pure (numberValue type isArray 1 notString notArray (Or.inr rfl) data)

def readType : Reader Crash (Nat × Bool × Nat) := do
  let code ← Reader.uint 4
  if GgufType.ofCode code = some .array then
    let elements ← Reader.uint 4
    let n ← Reader.uint 8
    pure (elements, true, n)
  else pure (code, false, 1)

def readTypedValue (env : ReadEnv) : Reader Crash GgufValue := do
  let (code, isArray, n) ← readType
  match GgufType.ofCode code with
  | none => Reader.fail
  | some type => readValue env type isArray n

/-- One round of the loop over the pairs.  The constructors of `gguf_kv` assert
that the key is not empty, when the value has been read. -/
def readKv (env : ReadEnv) (earlier : List GgufKv) : Reader Crash GgufKv := do
  let key ← readString env true
  if key ∈ earlier.map GgufKv.key then Reader.fail
  else
    let value ← readTypedValue env
    if keyNonempty : key ≠ [] then
      pure { value with key := key, keyNonempty := keyNonempty }
    else Reader.abort .ggmlAssert

/-- An `int64_t` count that must be in `[0, bound]`. -/
def readCount (bound : Nat) : Reader Crash Nat := do
  let n ← Reader.uint 8
  if 0x8000000000000000 ≤ n ∨ bound < n then Reader.fail else pure n

def readVersion : Reader Crash Nat := do
  let magic ← Reader.take 4
  if magic.val ≠ ggufMagic then Reader.fail
  else
    let version ← Reader.uint 4
    if version = 1 ∨ ggufVersion < version then Reader.fail else pure version

def contextAlignment (kv : List GgufKv) : Except Crash Nat :=
  match findKey kv keyGeneralAlignment with
  | none => .ok ggufDefaultAlignment
  | some keyId => getValU32 kv keyId

def readAlignment (kv : List GgufKv) : Reader Crash Nat := do
  let alignment ← Reader.ofExcept (contextAlignment kv)
  if alignment = 0 ∨ alignment &&& (alignment - 1) ≠ 0 then Reader.fail else pure alignment

/-! ## The tensor infos -/

structure GgmlTypeTraits where
  blckSize : Nat
  typeSize : Nat
  deriving DecidableEq, Repr

/-- `type_traits`; the types that were removed have no block size. -/
def typeTraits : List GgmlTypeTraits :=
  [⟨1, 4⟩, ⟨1, 2⟩, ⟨32, 18⟩, ⟨32, 20⟩, ⟨0, 0⟩, ⟨0, 0⟩, ⟨32, 22⟩, ⟨32, 24⟩, ⟨32, 34⟩, ⟨32, 36⟩,
    -- the super-blocks, from `GGML_TYPE_Q2_K` to `GGML_TYPE_Q8_K`
    ⟨256, 84⟩, ⟨256, 110⟩, ⟨256, 144⟩, ⟨256, 176⟩, ⟨256, 210⟩, ⟨256, 292⟩,
    -- from `GGML_TYPE_IQ2_XXS` to `GGML_TYPE_IQ4_XS`
    ⟨256, 66⟩, ⟨256, 74⟩, ⟨256, 98⟩, ⟨256, 50⟩, ⟨32, 18⟩, ⟨256, 110⟩, ⟨256, 82⟩, ⟨256, 136⟩,
    ⟨1, 1⟩, ⟨1, 2⟩, ⟨1, 4⟩, ⟨1, 8⟩, ⟨1, 8⟩, ⟨256, 56⟩, ⟨1, 2⟩, ⟨0, 0⟩, ⟨0, 0⟩, ⟨0, 0⟩,
    ⟨256, 54⟩, ⟨256, 66⟩, ⟨0, 0⟩, ⟨0, 0⟩, ⟨0, 0⟩]

def ggmlTypeCount : Nat := 39

def ggmlBlckSize (type : Nat) : Nat := (typeTraits.getD type ⟨0, 0⟩).blckSize

def ggmlTypeSize (type : Nat) : Nat := (typeTraits.getD type ⟨0, 0⟩).typeSize

def ggmlMaxName : Nat := 64

def ggmlMaxDims : Nat := 4

def int64Max : Nat := 0x7fffffffffffffff

def readName (env : ReadEnv) (earlier : List GgufTensorInfo) : Reader Crash Bytes := do
  let name ← readString env true
  if ggmlMaxName ≤ name.length then Reader.fail
  else if cstr name ∈ earlier.map GgufTensorInfo.name then Reader.fail
  else pure (cstr name)

def readNe : Reader Crash Nat := do
  let ne ← Reader.uint 8
  if int64Max < ne then Reader.fail else pure ne

def Shape.ofDims (dims : List Nat) : Shape where
  ne0 := dims.getD 0 1
  ne1 := dims.getD 1 1
  ne2 := dims.getD 2 1
  ne3 := dims.getD 3 1

def int64MaxBy (env : ReadEnv) (ne : Nat) : Except Crash Nat :=
  if ne = 0 then if env.divisionTraps then .error .divisionByZero else .ok 0
  else .ok (int64Max / ne)

/-- The three comparisons, each made unless one before it holds. -/
def Shape.tooManyElements (env : ReadEnv) (shape : Shape) : Except Crash Bool := do
  let bound1 ← int64MaxBy env shape.ne1
  if bound1 ≤ shape.ne0 then return true
  let bound2 ← int64MaxBy env shape.ne2
  if bound2 ≤ shape.ne0 * shape.ne1 then return true
  let bound3 ← int64MaxBy env shape.ne3
  return decide (bound3 ≤ shape.ne0 * shape.ne1 * shape.ne2)

def readDims : Reader Crash (List Nat) := do
  let nDims ← Reader.uint 4
  if ggmlMaxDims < nDims then Reader.fail else Reader.times nDims readNe

def readShape (env : ReadEnv) : Reader Crash Shape := do
  let dims ← readDims
  let tooMany ← Reader.ofExcept ((Shape.ofDims dims).tooManyElements env)
  if tooMany = true then Reader.fail else pure (Shape.ofDims dims)

/-- A known type whose blocks fill the rows. -/
def readTensorType (shape : Shape) : Reader Crash Nat := do
  let type ← Reader.uint 4
  if ggmlTypeCount ≤ type ∨ ggmlBlckSize type = 0 ∨ shape.ne0 % ggmlBlckSize type ≠ 0 then
    Reader.fail
  else pure type

def readTensorInfo (env : ReadEnv) (earlier : List GgufTensorInfo) :
    Reader Crash GgufTensorInfo := do
  let name ← readName env earlier
  let shape ← readShape env
  let type ← readTensorType shape
  let offset ← Reader.uint 8
  pure { name := name, shape := shape, type := type, offset := offset }

def GgufTensorInfo.nbytes (info : GgufTensorInfo) : UInt64 :=
  let ne0 := UInt64.ofNat info.shape.ne0
  let ne1 := UInt64.ofNat info.shape.ne1
  let ne2 := UInt64.ofNat info.shape.ne2
  let ne3 := UInt64.ofNat info.shape.ne3
  let blckSize := UInt64.ofNat (ggmlBlckSize info.type)
  let nb0 := UInt64.ofNat (ggmlTypeSize info.type)
  let nb1 := nb0 * (ne0 / blckSize)
  let nb2 := nb1 * ne1
  let nb3 := nb2 * ne2
  let rows := (ne1 - 1) * nb1 + (ne2 - 1) * nb2 + (ne3 - 1) * nb3
  if blckSize = 1 then nb0 + (ne0 - 1) * nb0 + rows else ne0 * nb0 / blckSize + rows

def ggmlPad (x n : UInt64) : UInt64 := (x + n - 1) &&& ~~~(n - 1)

def consecutive (alignment : UInt64) : UInt64 → List GgufTensorInfo → Bool
  | _, [] => true
  | size, info :: later =>
    info.offset = size.toNat && consecutive alignment (size + ggmlPad info.nbytes alignment) later

/-! ## The file -/

def readHeader (env : ReadEnv) : Reader Crash (Nat × Nat × Nat) := do
  let version ← readVersion
  let nTensors ← readCount env.maxTensors
  let nKv ← readCount env.maxKv
  pure (version, nTensors, nKv)

/-- `gguf_init_from_file_impl`. -/
def readContext (env : ReadEnv) : Reader Crash GgufContext := do
  let (version, nTensors, nKv) ← readHeader env
  let kv ← Reader.collect (readKv env) nKv []
  let alignment ← readAlignment kv
  let info ← Reader.collect (readTensorInfo env) nTensors []
  if env.seekable = false ∨ consecutive (UInt64.ofNat alignment) 0 info = false then Reader.fail
  else pure { version := version, kv := kv, info := info, alignment := alignment }

/-- `gguf_init_from_file`; the file is `none` when it cannot be opened, the
result is `none` for a null pointer. -/
def ggufInitFromFile (env : ReadEnv) (file : Option Bytes) : Except Crash (Option GgufContext) :=
  match file with
  | none => .ok none
  | some bytes =>
    match readContext env bytes with
    | .error crash => .error crash
    | .ok none => .ok none
    | .ok (some (ctx, _)) => .ok (some ctx)

end MineGPT.Gguf
