import Mathlib.Data.Finset.Sort
import MineGPT.Kv.Lifetime
import MineGPT.Lib.Memory
import MineGPT.Lib.Writer

/-!
# Saving and restoring the cache

`state_write` and `state_read` of the cache that is not recurrent, byte for byte: the
cells first, then per layer the keys of these cells and their values, which are
transposed or not.  Where bytes are read from or written to a tensor, its bounds are
asserted.

A buffer that ends early is an exception in the source; here the reader gives up, and
what is then left in the cache is not modelled.
-/

set_option autoImplicit false

namespace MineGPT.Kv

open MineGPT.Lib MineGPT.Lib.ByteString MineGPT.Lib.Reader MineGPT.Lib.Memory

/-- The type of a tensor of the cache, with its `ggml_type_size` and `ggml_blck_size`, and the
elements that it has for each cell. -/
structure KvTensorType where
  type : Int
  typeSize : Nat
  blckSize : Nat
  nEmbdGqa : Nat
  deriving DecidableEq

def KvTensorType.ggmlRowSize (tensor : KvTensorType) (ne : Nat) : Nat :=
  tensor.typeSize * ne / tensor.blckSize

def KvTensorType.sizeRow (tensor : KvTensorType) : Nat := tensor.ggmlRowSize tensor.nEmbdGqa

/-- `ggml_nbytes`; the number of elements of the tensor is a product of `uint32_t`. -/
def KvTensorType.nbytes (tensor : KvTensorType) (size : Nat) : Nat :=
  tensor.ggmlRowSize (tensor.nEmbdGqa * size % 2 ^ 32)

structure KvLayer where
  k : KvTensorType
  v : KvTensorType
  deriving DecidableEq

structure KvShape where
  layers : List KvLayer
  vTrans : Bool

/-- `k_l` and `v_l`: the byte at each address of the tensor of each layer. -/
structure KvTensors where
  k : Nat → Nat → UInt8
  v : Nat → Nat → UInt8

def KvTensors.cleared : KvTensors := { k := fun _ _ => 0, v := fun _ _ => 0 }

/-! ## Writing -/

section Write

variable (shape : KvShape) (kv : KvCache) (tensors : KvTensors)

/-- The cells that are saved; every one that holds a token for sequence -1. -/
def KvCache.saved (seqId : Int) (i : Nat) : Bool :=
  (seqId == -1 && !(kv.cellAt i).isEmpty) || (kv.cellAt i).hasSeqId seqId

structure RangeScan where
  cellCount : Nat
  cellRangeBegin : Nat
  cellRanges : List (Nat × Nat)

def RangeScan.step (size : Nat) (saved : Nat → Bool) (scan : RangeScan) (i : Nat) : RangeScan :=
  if saved i then
    { scan with
      cellCount := scan.cellCount + 1
      cellRangeBegin := if scan.cellRangeBegin = size then i else scan.cellRangeBegin }
  else if scan.cellRangeBegin ≠ size then
    { scan with
      cellRangeBegin := size
      cellRanges := scan.cellRanges ++ [(scan.cellRangeBegin, i)] }
  else scan

def cellRanges (size : Nat) (saved : Nat → Bool) : Nat × List (Nat × Nat) :=
  let scan := (List.range size).foldl (RangeScan.step size saved) ⟨0, size, []⟩
  (scan.cellCount,
    if scan.cellRangeBegin ≠ size then scan.cellRanges ++ [(scan.cellRangeBegin, size)]
    else scan.cellRanges)

def forRanges (ranges : List (Nat × Nat)) (write : Nat → Bytes) : Bytes :=
  ranges.flatMap fun range => (List.range' range.1 (range.2 - range.1)).flatMap write

def KvCell.sortedIds (cell : KvCell) : List Int := cell.seqId.sort

/-- A sequence-agnostic cell has no sequence ids. -/
def writeCell (cell : KvCell) (seqId : Int) : Bytes :=
  let nSeqId := if seqId = -1 then cell.seqId.card else 0
  writeInt32 cell.pos ++ leBytes 4 nSeqId ++
    if nSeqId ≠ 0 then cell.sortedIds.flatMap writeInt32 else []

def stateWriteMeta (ranges : List (Nat × Nat)) (seqId : Int) : Bytes :=
  forRanges ranges fun i => writeCell (kv.cellAt i) seqId

/-- `ggml_backend_tensor_get`; `none` is its assertion on the bounds. -/
def tensorGet (nbytes : Nat) (mem : Nat → UInt8) (offset size : Nat) : Option Bytes :=
  if size = 0 ∨ offset + size ≤ nbytes then some (load mem offset size) else none

/-- The rows of whole ranges; `offset` is the one of the row of a cell. -/
def writeRanges (ranges : List (Nat × Nat)) (nbytes : Nat) (mem : Nat → UInt8)
    (offset : Nat → Nat) (sizeRow : Nat) : Option Bytes :=
  writeAll (fun range =>
    tensorGet nbytes mem (offset range.1) ((range.2 - range.1) * sizeRow)) ranges

/-- The saved rows of a tensor that has one for each cell. -/
def writeTyped (ranges : List (Nat × Nat)) (tensor : KvTensorType) (mem : Nat → UInt8) :
    Option Bytes := do
  let rows ← writeRanges ranges (tensor.nbytes kv.size) mem (fun first => first * tensor.sizeRow)
    tensor.sizeRow
  pure (writeInt32 tensor.type ++ leBytes 8 tensor.sizeRow ++ rows)

def writeKeys (ranges : List (Nat × Nat)) (layer : KvLayer) : (Nat → UInt8) → Option Bytes :=
  writeTyped kv ranges layer.k

def writeValues (ranges : List (Nat × Nat)) (layer : KvLayer) : (Nat → UInt8) → Option Bytes :=
  writeTyped kv ranges layer.v

/-- Row `j` of the transposed values has an element for each cell of the cache; its offset
is a product of `uint32_t`. -/
def writeValuesTrans (ranges : List (Nat × Nat)) (layer : KvLayer) (mem : Nat → UInt8) :
    Option Bytes := do
  let vSizeEl := layer.v.typeSize
  let rows ← writeAll (fun j => writeRanges ranges (layer.v.nbytes kv.size) mem
    (fun first => (first + j * kv.size) * vSizeEl % 2 ^ 32) vSizeEl) (List.range layer.v.nEmbdGqa)
  pure (writeInt32 layer.v.type ++ leBytes 4 vSizeEl ++ leBytes 4 layer.v.nEmbdGqa ++ rows)

def writeLayers (write : KvLayer → (Nat → UInt8) → Option Bytes) :
    Nat → List KvLayer → (Nat → Nat → UInt8) → Option Bytes
  | _, [], _ => some []
  | il, layer :: rest, mems => do
    let here ← write layer (mems il)
    let later ← writeLayers write (il + 1) rest mems
    pure (here ++ later)

def stateWriteData (ranges : List (Nat × Nat)) : Option Bytes := do
  let keys ← writeLayers (writeKeys kv ranges) 0 shape.layers tensors.k
  let values ← writeLayers
    (if shape.vTrans then writeValuesTrans kv ranges else writeValues kv ranges)
    0 shape.layers tensors.v
  pure (leBytes 4 (if shape.vTrans then 1 else 0) ++ leBytes 4 shape.layers.length ++ keys ++
    values)

/-- `state_write`; `none` is an assertion that fails. -/
def stateWrite (seqId : Int) : Option Bytes :=
  let (cellCount, ranges) := cellRanges kv.size (kv.saved seqId)
  if cellCount ≠ (ranges.map fun range => range.2 - range.1).sum then none
  else
    (stateWriteData shape kv tensors ranges).map fun data =>
      leBytes 4 cellCount ++ stateWriteMeta kv ranges seqId ++ data

end Write

/-! ## Reading -/

/-- What the source aborts on, or leaves undefined: an assertion, a micro-batch without
tokens. -/
inductive StateCrash where
  | ggmlAssert
  | emptyBatch
  deriving DecidableEq, Repr

abbrev StateReader (α : Type) := Reader StateCrash α

/-- The positions of seq_id-agnostic cells; `none` if there is another one. -/
def readPositions : Nat → StateReader (Option (List Int))
  | 0 => pure (some [])
  | n + 1 => do
    let pos ← int32
    let nSeqId ← uint 4
    if nSeqId ≠ 0 then pure none
    else do
      let later ← readPositions n
      pure (later.map (pos :: ·))

/-- The sequence ids of a cell; the flag is false if one is negative. -/
def readSeqIds : Nat → StateReader (Bool × List Int)
  | 0 => pure (true, [])
  | n + 1 => do
    let seqId ← int32
    if seqId < 0 then pure (false, [])
    else do
      let (ok, later) ← readSeqIds n
      pure (ok, seqId :: later)

def readCells : Nat → Nat → KvCache → StateReader (Bool × KvCache)
  | 0, _, kv => pure (true, kv)
  | n + 1, i, kv => do
    let pos ← int32
    let nSeqId ← uint 4
    let (ok, seqIds) ← readSeqIds nSeqId
    let kv := { kv with
      cells := kv.cells.modify i fun cell =>
        { cell with pos := pos, seqId := cell.seqId ∪ seqIds.toFinset } }
    if ok then readCells n (i + 1) kv else pure (false, kv)

/-- Whether the cells were read, the cache, and whether its buffers were cleared. -/
def stateReadMeta (kv : KvCache) (cellCount : Nat) (destSeqId : Int) :
    StateReader (Bool × KvCache × Bool) :=
  if destSeqId ≠ -1 then do
    let kv := kv.seqRm destSeqId (-1) (-1)
    let positions ← readPositions cellCount
    match positions with
    | none => pure (false, kv, false)
    | some positions =>
      if positions = [] then abort .emptyBatch
      else
        match kv.findSlot (positions.map fun pos => ⟨0, pos, [destSeqId]⟩) with
        | none => abort .ggmlAssert
        | some (.failed, after) => pure (false, after, false)
        | some (.slot _ _, after) =>
          let first := after.cellAt after.head
          let last := after.cellAt (after.head + cellCount - 1)
          if after.head + cellCount ≤ after.size ∧ first.pos = positions.headD 0 ∧
              last.pos = positions.getLastD 0 ∧ first.hasSeqId destSeqId ∧
              last.hasSeqId destSeqId then
            pure (true, after, false)
          else abort .ggmlAssert
  else if kv.size < cellCount then pure (false, kv, false)
  else do
    let (ok, kv) ← readCells cellCount 0 kv.clear
    if ok then pure (true, { kv with head := 0, used := cellCount }, true)
    else pure (false, kv, true)

/-- The tensors of the layers from `il` on, until one does not match. -/
def readLayers (read : KvLayer → (Nat → UInt8) → StateReader (Bool × (Nat → UInt8))) :
    Nat → List KvLayer → (Nat → Nat → UInt8) → StateReader (Bool × (Nat → Nat → UInt8))
  | _, [], mems => pure (true, mems)
  | il, layer :: rest, mems => do
    let (ok, mem) ← read layer (mems il)
    let mems := Function.update mems il mem
    if ok then readLayers read (il + 1) rest mems else pure (false, mems)

/-- `ggml_backend_tensor_set`, with its assertion on the bounds. -/
def tensorSet (nbytes : Nat) (mem : Nat → UInt8) (offset : Nat) (data : Bytes) :
    StateReader (Nat → UInt8) :=
  if data = [] ∨ offset + data.length ≤ nbytes then pure (store mem offset data)
  else abort .ggmlAssert

section Data

variable (head size cellCount : Nat)

def readTyped (tensor : KvTensorType) (mem : Nat → UInt8) :
    StateReader (Bool × (Nat → UInt8)) := do
  let typeRef ← int32
  if tensor.type ≠ typeRef then pure (false, mem)
  else do
    let sizeRowRef ← uint 8
    if tensor.sizeRow ≠ sizeRowRef then pure (false, mem)
    else if cellCount = 0 then pure (true, mem)
    else do
      let rows ← take (cellCount * tensor.sizeRow)
      let mem ← tensorSet (tensor.nbytes size) mem (head * tensor.sizeRow) rows
      pure (true, mem)

def readKeys (layer : KvLayer) : (Nat → UInt8) → StateReader (Bool × (Nat → UInt8)) :=
  readTyped head size cellCount layer.k

def readValues (layer : KvLayer) : (Nat → UInt8) → StateReader (Bool × (Nat → UInt8)) :=
  readTyped head size cellCount layer.v

/-- The rows of the transposed values from `j` on; only the index of an element is a
`uint32_t` here. -/
def readTransposed (nbytes vSizeEl : Nat) : Nat → Nat → (Nat → UInt8) →
    StateReader (Nat → UInt8)
  | 0, _, mem => pure mem
  | n + 1, j, mem => do
    let row ← take (cellCount * vSizeEl)
    let mem ← tensorSet nbytes mem ((head + j * size) % 2 ^ 32 * vSizeEl) row
    readTransposed nbytes vSizeEl n (j + 1) mem

def readValuesTrans (layer : KvLayer) (mem : Nat → UInt8) :
    StateReader (Bool × (Nat → UInt8)) := do
  let vTypeRef ← int32
  if layer.v.type ≠ vTypeRef then pure (false, mem)
  else do
    let vSizeElRef ← uint 4
    if layer.v.typeSize ≠ vSizeElRef then pure (false, mem)
    else do
      let nEmbdVGqaRef ← uint 4
      if layer.v.nEmbdGqa ≠ nEmbdVGqaRef then pure (false, mem)
      else if cellCount = 0 then pure (true, mem)
      else do
        let mem ← readTransposed head size cellCount (layer.v.nbytes size) layer.v.typeSize
          layer.v.nEmbdGqa 0 mem
        pure (true, mem)

/-- The flag `v_trans` is compared with itself as a `bool`, not with the one of the cache;
the values are read as it says. -/
def stateReadData (shape : KvShape) (tensors : KvTensors) : StateReader (Bool × KvTensors) := do
  let vTrans ← uint 4
  let nLayer ← uint 4
  if nLayer ≠ shape.layers.length then pure (false, tensors)
  else if size < cellCount then pure (false, tensors)
  else if vTrans ≠ (if vTrans ≠ 0 then 1 else 0) then pure (false, tensors)
  else do
    let (ok, k) ← readLayers (readKeys head size cellCount) 0 shape.layers tensors.k
    if !ok then pure (false, { tensors with k := k })
    else do
      let (ok, v) ← readLayers
        (if vTrans = 0 then readValues head size cellCount else readValuesTrans head size cellCount)
        0 shape.layers tensors.v
      pure (ok, { k := k, v := v })

end Data

/-- `state_read`; the flag is false where it throws that it failed. -/
def stateRead (shape : KvShape) (kv : KvCache) (tensors : KvTensors) (seqId : Int) :
    StateReader (Bool × KvCache × KvTensors) := do
  let cellCount ← uint 4
  let (ok, kv, cleared) ← stateReadMeta kv cellCount seqId
  let tensors := if cleared then KvTensors.cleared else tensors
  let (ok, tensors) ← if ok then stateReadData kv.head kv.size cellCount shape tensors
    else pure (false, tensors)
  if ok then pure (true, kv, tensors)
  else if seqId = -1 then pure (false, kv.clear, KvTensors.cleared)
  else pure (false, kv.seqRm seqId (-1) (-1), tensors)

end MineGPT.Kv
