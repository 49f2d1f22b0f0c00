import MineGPT.Lib.Reader

/-!
# Key-value pairs of a GGUF file

`gguf_kv` with the accessors that MineGPT reaches, each behind its
`GGML_ASSERT`s.  A pair carries what the constructors of the source establish
about its elements, so only the type and the number of elements can make an
accessor abort.
-/

set_option autoImplicit false

namespace MineGPT.Gguf

open MineGPT.Lib MineGPT.Lib.ByteString

/-- What ends the process in native code. -/
inductive Crash where
  | ggmlAssert
  /-- A C++ exception that nothing catches. -/
  | uncaughtException
  /-- A native method is entered with a null `gguf_context`. -/
  | nullContext
  /-- A tensor with a zero dimension is divided by. -/
  | divisionByZero
  deriving DecidableEq, Repr

inductive GgufType where
  | uint8
  | int8
  | uint16
  | int16
  | uint32
  | int32
  | float32
  | bool
  | string
  | array
  | uint64
  | int64
  | float64
  deriving DecidableEq, Repr

namespace GgufType

/-- `gguf_type(tmp)`; `none` for a number outside the enumeration. -/
def ofCode : Nat → Option GgufType
  | 0 => some .uint8
  | 1 => some .int8
  | 2 => some .uint16
  | 3 => some .int16
  | 4 => some .uint32
  | 5 => some .int32
  | 6 => some .float32
  | 7 => some .bool
  | 8 => some .string
  | 9 => some .array
  | 10 => some .uint64
  | 11 => some .int64
  | 12 => some .float64
  | _ => none

def code : GgufType → Nat
  | .uint8 => 0
  | .int8 => 1
  | .uint16 => 2
  | .int16 => 3
  | .uint32 => 4
  | .int32 => 5
  | .float32 => 6
  | .bool => 7
  | .string => 8
  | .array => 9
  | .uint64 => 10
  | .int64 => 11
  | .float64 => 12

/-- `GGUF_TYPE_SIZE`; 0 where the size is undefined. -/
def size : GgufType → Nat
  | .uint8 => 1
  | .int8 => 1
  | .uint16 => 2
  | .int16 => 2
  | .uint32 => 4
  | .int32 => 4
  | .float32 => 4
  | .bool => 1
  | .string => 0
  | .array => 0
  | .uint64 => 8
  | .int64 => 8
  | .float64 => 8

theorem ofCode_code (type : GgufType) : ofCode type.code = some type := by
  cases type <;> rfl

theorem ofCode_eq_some_iff {n : Nat} {type : GgufType} :
    ofCode n = some type ↔ n = type.code := by
  constructor
  · intro known
    unfold ofCode at known
    split at known <;> cases known <;> rfl
  · rintro rfl
    exact ofCode_code type

theorem size_pos {type : GgufType} (notString : type ≠ .string) (notArray : type ≠ .array) :
    0 < type.size := by
  cases type with
  | string => exact absurd rfl notString
  | array => exact absurd rfl notArray
  | uint8 | int8 | uint16 | int16 | uint32 | int32 | float32 | bool | uint64 | int64 | float64 =>
      decide

end GgufType

/-- The value of a pair: a scalar or an array of strings or of numbers. -/
@[ext] structure GgufValue where
  isArray : Bool
  type : GgufType
  data : Bytes
  dataString : List Bytes
  notArray : type ≠ .array
  strings : type = .string → isArray = true ∨ dataString.length = 1
  numbers : type ≠ .string → ∃ n, data.length = n * type.size ∧ (isArray = true ∨ n = 1)

@[ext] structure GgufKv extends GgufValue where
  key : Bytes
  keyNonempty : key ≠ []

namespace GgufValue

def count (value : GgufValue) : Nat :=
  if value.type = .string then value.dataString.length else value.data.length / value.type.size

def getNe (value : GgufValue) : Except Crash Nat :=
  if value.type = .string then
    let ne := value.dataString.length
    if value.isArray ∨ ne = 1 then .ok ne else .error .ggmlAssert
  else if value.data.length % value.type.size ≠ 0 then .error .ggmlAssert
  else
    let ne := value.data.length / value.type.size
    if value.isArray ∨ ne = 1 then .ok ne else .error .ggmlAssert

def getValString (value : GgufValue) : Except Crash Bytes :=
  if value.type ≠ .string then .error .ggmlAssert
  else
    match value.dataString with
    | [] => .error .ggmlAssert
    | first :: _ => .ok first

/-- `get_val<T>()` of a number type; the value is the first element's bytes. -/
def getValNumber (type : GgufType) (value : GgufValue) : Except Crash Bytes :=
  if value.type ≠ type then .error .ggmlAssert
  else if value.data.length % type.size ≠ 0 then .error .ggmlAssert
  else if value.data.length < type.size then .error .ggmlAssert
  else .ok (value.data.take type.size)

/-! ## When the accessors abort -/

/-- The number of elements is never in doubt. -/
theorem getNe_eq (value : GgufValue) : value.getNe = .ok value.count := by
  simp only [getNe, count]
  by_cases string : value.type = .string
  · have one := value.strings string
    simp [string, one]
  · obtain ⟨n, length, one⟩ := value.numbers string
    have positive := GgufType.size_pos string value.notArray
    have whole : value.data.length % value.type.size = 0 := by
      rw [length]
      exact Nat.mul_mod_left n _
    have quotient : value.data.length / value.type.size = n := by
      rw [length]
      exact Nat.mul_div_cancel n positive
    simp [string, whole, quotient, one]

theorem getValString_ok_iff {value : GgufValue} (one : value.count = 1) :
    (∃ text, value.getValString = .ok text) ↔ value.type = .string := by
  constructor
  · rintro ⟨text, read⟩
    by_contra other
    simp [getValString, other] at read
  · intro string
    rw [count, if_pos string] at one
    obtain ⟨text, single⟩ := List.length_eq_one_iff.mp one
    exact ⟨text, by simp [getValString, string, single]⟩

theorem getValNumber_ok_iff {value : GgufValue} (one : value.count = 1) {type : GgufType}
    (notString : type ≠ .string) :
    (∃ bytes, value.getValNumber type = .ok bytes) ↔ value.type = type := by
  constructor
  · rintro ⟨bytes, read⟩
    by_contra other
    simp [getValNumber, other] at read
  · rintro rfl
    rw [count, if_neg notString] at one
    obtain ⟨n, length, _⟩ := value.numbers notString
    have positive := GgufType.size_pos notString value.notArray
    rw [length, Nat.mul_div_cancel n positive] at one
    have whole : value.data.length = value.type.size := by rw [length, one, Nat.one_mul]
    exact ⟨value.data.take value.type.size, by simp [getValNumber, whole]⟩

end GgufValue

/-! ## Contexts -/

/-- `ne`, the numbers of elements of a tensor. -/
structure Shape where
  ne0 : Nat
  ne1 : Nat
  ne2 : Nat
  ne3 : Nat
  deriving DecidableEq, Repr

/-- `gguf_tensor_info`; the name is a C string. -/
structure GgufTensorInfo where
  name : Bytes
  shape : Shape
  type : Nat
  offset : Nat
  deriving DecidableEq, Repr

/-- `gguf_context` without the place, the size and the bytes of the data section. -/
structure GgufContext where
  version : Nat
  kv : List GgufKv
  info : List GgufTensorInfo
  alignment : Nat

/-- `gguf_find_key`, which compares with `strcmp`; `none` for -1. -/
def findKey (kv : List GgufKv) (key : Bytes) : Option Nat :=
  kv.findIdx? fun entry => cstr entry.key = cstr key

/-- The asserts of `gguf_get_val_*`, then `get_val`. -/
def getVal {α : Type} (read : GgufValue → Except Crash α) (kv : List GgufKv) (keyId : Nat) :
    Except Crash α :=
  match kv[keyId]? with
  | none => .error .ggmlAssert
  | some entry =>
    match entry.getNe with
    | .error crash => .error crash
    | .ok ne => if ne ≠ 1 then .error .ggmlAssert else read entry.toGgufValue

/-- `gguf_get_val_str`; its result is a C string. -/
def getValStr (kv : List GgufKv) (keyId : Nat) : Except Crash Bytes :=
  (getVal GgufValue.getValString kv keyId).map cstr

def getValU32 (kv : List GgufKv) (keyId : Nat) : Except Crash Nat :=
  (getVal (GgufValue.getValNumber .uint32) kv keyId).map Reader.littleEndian

/-- The value is of this type and has one element, in an array or not. -/
def GgufValue.Single (type : GgufType) (value : GgufValue) : Prop :=
  value.type = type ∧ value.count = 1

instance (type : GgufType) (value : GgufValue) : Decidable (value.Single type) :=
  inferInstanceAs (Decidable (_ ∧ _))

theorem getVal_ok_iff {α : Type} {read : GgufValue → Except Crash α} {type : GgufType}
    (reads : ∀ value : GgufValue, value.count = 1 →
      ((∃ result, read value = .ok result) ↔ value.type = type))
    {kv : List GgufKv} {keyId : Nat} {entry : GgufKv} (found : kv[keyId]? = some entry) :
    (∃ result, getVal read kv keyId = .ok result) ↔ entry.Single type := by
  simp only [getVal, found, entry.getNe_eq, GgufValue.Single]
  by_cases one : entry.count = 1
  · simp only [one, ne_eq, not_true_eq_false, if_false, and_true]
    exact reads entry.toGgufValue one
  · simp [one]

theorem getValStr_ok_iff {kv : List GgufKv} {keyId : Nat} {entry : GgufKv}
    (found : kv[keyId]? = some entry) :
    (∃ text, getValStr kv keyId = .ok text) ↔ entry.Single .string := by
  rw [← getVal_ok_iff (fun _ => GgufValue.getValString_ok_iff) found, getValStr]
  cases getVal GgufValue.getValString kv keyId <;> simp [Except.map]

theorem getValU32_ok_iff {kv : List GgufKv} {keyId : Nat} {entry : GgufKv}
    (found : kv[keyId]? = some entry) :
    (∃ n, getValU32 kv keyId = .ok n) ↔ entry.Single .uint32 := by
  rw [← getVal_ok_iff
    (fun _ one => GgufValue.getValNumber_ok_iff one (by decide : GgufType.uint32 ≠ .string)) found,
    getValU32]
  cases getVal (GgufValue.getValNumber .uint32) kv keyId <;> simp [Except.map]

theorem findKey_getElem? {kv : List GgufKv} {key : Bytes} {keyId : Nat}
    (found : findKey kv key = some keyId) :
    ∃ entry, kv[keyId]? = some entry ∧ cstr entry.key = cstr key := by
  obtain ⟨inside, same, _⟩ := List.findIdx?_eq_some_iff_getElem.mp found
  exact ⟨kv[keyId], List.getElem?_eq_getElem inside, by simpa using same⟩

end MineGPT.Gguf
