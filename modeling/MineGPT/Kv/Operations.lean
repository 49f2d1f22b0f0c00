import MineGPT.Kv.Linear
import MineGPT.Kv.Defrag
import MineGPT.Lib.Places

/-!
# Editing sequences in the cache

The operations of `llama_kv_cache_unified` on sequences and on the whole cache, for a
cache that is not recurrent, and `kv_self_update`, which carries out what they left
pending.  A sum of positions that overflows is undefined behaviour in the source, so
positions are integers.
-/

set_option autoImplicit false

namespace MineGPT.Kv

/-- `p0 < 0` is the beginning. -/
def rangeBegin (p0 : Int) : Int := if p0 < 0 then 0 else p0

/-- `p1 < 0` is no end. -/
def rangeEnd (p1 : Int) : Int := if p1 < 0 then 0x7fffffff else p1

def KvCell.hasSeqId (cell : KvCell) (seqId : Int) : Bool := seqId ∈ cell.seqId

def KvCell.selected (cell : KvCell) (seqId p0 p1 : Int) : Bool :=
  cell.hasSeqId seqId && p0 ≤ cell.pos && cell.pos < p1

namespace KvCache

/-- If a slot was freed, searching can start there. -/
def lowerHead (kv : KvCache) (newHead : Nat) : Nat :=
  if newHead ≠ kv.size ∧ newHead < kv.head then newHead else kv.head

/-- `clear`; what the cells' tensors hold is in the rows. -/
def clear (kv : KvCache) : KvCache :=
  { kv with
    cells := kv.cells.map fun cell => { cell with pos := -1, seqId := ∅, src := -1, tail := -1 }
    head := 0
    used := 0 }

end KvCache

def KvCell.copy (cell : KvCell) (src dst p0 p1 : Int) : KvCell :=
  if cell.selected src p0 p1 then { cell with seqId := insert dst cell.seqId } else cell

def KvCache.seqCp (kv : KvCache) (src dst p0 p1 : Int) : KvCache :=
  if src = dst then kv
  else
    { kv with
      head := 0
      cells := kv.cells.map fun cell => cell.copy src dst (rangeBegin p0) (rangeEnd p1) }

def KvCell.keep (cell : KvCell) (seqId : Int) : KvCell :=
  if cell.hasSeqId seqId then { cell with seqId := {seqId} }
  else { cell with pos := -1, src := -1, seqId := ∅ }

def KvCache.seqKeep (kv : KvCache) (seqId : Int) : KvCache :=
  { kv with
    cells := kv.cells.map fun cell => cell.keep seqId
    used := kv.used - kv.cells.countP fun cell => !cell.hasSeqId seqId && 0 ≤ cell.pos
    head := kv.lowerHead (kv.cells.findIdx fun cell => !cell.hasSeqId seqId) }

/-- A cell that the shift takes out of the front is freed. -/
def KvCell.shiftedOut (cell : KvCell) (seqId p0 p1 delta : Int) : Bool :=
  cell.selected seqId p0 p1 && cell.pos + delta < 0

def KvCell.add (cell : KvCell) (seqId p0 p1 delta : Int) : KvCell :=
  if cell.selected seqId p0 p1 then
    if cell.pos + delta < 0 then { cell with delta := cell.delta + delta, pos := -1, seqId := ∅ }
    else { cell with pos := cell.pos + delta, delta := cell.delta + delta }
  else cell

/-- The cache, and whether a cell was shifted. -/
def KvCache.seqAdd (kv : KvCache) (seqId p0 p1 delta : Int) : KvCache × Bool :=
  let p0 := rangeBegin p0
  let p1 := rangeEnd p1
  if delta = 0 ∨ p0 = p1 then (kv, false)
  else
    let newHead := kv.cells.findIdx fun cell => cell.shiftedOut seqId p0 p1 delta
    ({ kv with
        cells := kv.cells.map fun cell => cell.add seqId p0 p1 delta
        used := kv.used - kv.cells.countP fun cell => cell.shiftedOut seqId p0 p1 delta
        -- otherwise the next search starts from the beginning
        head := if newHead ≠ kv.size then newHead else 0 },
      kv.cells.any fun cell => cell.selected seqId p0 p1)

def KvCell.divide (cell : KvCell) (seqId p0 p1 d : Int) : KvCell :=
  if cell.selected seqId p0 p1 then
    { cell with pos := cell.pos.tdiv d, delta := cell.delta + (cell.pos.tdiv d - cell.pos) }
  else cell

def KvCache.seqDiv (kv : KvCache) (seqId p0 p1 d : Int) : KvCache × Bool :=
  let p0 := rangeBegin p0
  let p1 := rangeEnd p1
  if d = 1 ∨ p0 = p1 then (kv, false)
  else
    ({ kv with cells := kv.cells.map fun cell => cell.divide seqId p0 p1 d },
      kv.cells.any fun cell => cell.selected seqId p0 p1)

/-! ## The cache with its rows -/

/-- `llama_kv_cache_unified` with the row that the tensors have for each cell. -/
structure KvStore (β : Type) where
  cache : KvCache
  hasShift : Bool
  doDefrag : Bool
  rows : Nat → β

section Store

variable {β : Type} (shift : Int → β → β) (compute : UToken → β)

namespace KvStore

/-- What the model and the context fix: whether keys can be shifted and are rotated at
all, and how many moves one defragmentation may make. -/
structure Params where
  canShift : Bool
  rotates : Bool
  maxMoves : Nat
  nUbatch : Nat

def seqAdd (kv : KvStore β) (seqId p0 p1 delta : Int) : KvStore β :=
  let (cache, shifted) := kv.cache.seqAdd seqId p0 p1 delta
  { kv with cache := cache, hasShift := kv.hasShift || shifted }

def seqDiv (kv : KvStore β) (seqId p0 p1 d : Int) : KvStore β :=
  let (cache, shifted) := kv.cache.seqDiv seqId p0 p1 d
  { kv with cache := cache, hasShift := kv.hasShift || shifted }

def defrag (kv : KvStore β) : KvStore β := { kv with doDefrag := true }

/-- Each row rotated by the `delta` of its cell; the flag is `need_reserve`. -/
def applyShift (params : Params) (kv : KvStore β) : KvStore β × Bool :=
  ({ kv with
      rows := if params.rotates then fun i => shift (kv.cache.cellAt i).delta (kv.rows i)
        else kv.rows
      hasShift := false
      cache := { kv.cache with cells := kv.cache.cells.map fun cell => { cell with delta := 0 } } },
    params.rotates)

/-- What `kv_self_update` carries out, with `need_reserve`; `none` where it aborts or an
assertion fails. -/
def settle (params : Params) (kv : KvStore β) : Option (KvStore β × Bool) :=
  if kv.hasShift && !params.canShift then none
  else
    let (kv, shifted) := if kv.hasShift then kv.applyShift shift params else (kv, false)
    if kv.doDefrag then
      (kv.cache.defragPrepare params.maxMoves).map fun (cache, ids, moved) =>
        ({ kv with
            cache := cache
            doDefrag := false
            rows := if moved then applyCopies kv.rows (buildDefrag ids) else kv.rows },
          shifted || moved)
    else some (kv, shifted)

/-- The worst-case graph, of `min(n_ctx, n_ubatch)` tokens from the head on: the view of
their keys must end inside the tensor. -/
def reserve (params : Params) (kv : KvStore β) : Option (KvStore β) :=
  if kv.cache.head + min kv.cache.size params.nUbatch ≤ kv.cache.size then
    some { kv with cache := { kv.cache with n := kv.cache.size } }
  else none

def selfUpdate (params : Params) (kv : KvStore β) : Option (KvStore β) :=
  (kv.settle shift params).bind fun (kv, needReserve) =>
    if needReserve then kv.reserve params else some kv

def writeRows (rows : Nat → β) (first : Nat) (values : List β) (i : Nat) : β :=
  if i < first then rows i else (values[i - first]?).getD (rows i)

/-- One micro-batch of `decode`; `failed` is what a computation that fails leaves in the
rows of the slot. -/
def decodeUbatch (params : Params) (kv : KvStore β) (ubatch : List UToken)
    (failed : Option (List β)) : Option (KvStore β) :=
  (kv.selfUpdate shift params).bind fun kv =>
    let cache := if kv.cache.used + 2 * ubatch.length < kv.cache.head then
      { kv.cache with head := 0 } else kv.cache
    (cache.findSlot ubatch).map fun
      | (.failed, after) => { kv with cache := after }
      | (.slot first _, after) =>
        let after := { after with
          n := min after.size (max getPadding (ggmlPad after.cellMax getPadding)) }
        match failed with
        | none =>
          { kv with
            cache := after.advance ubatch.length
            rows := writeRows kv.rows first (ubatch.map compute) }
        | some left =>
          { kv with
            cache := after
            rows := writeRows kv.rows first (left.take ubatch.length) }

end KvStore

end Store

end MineGPT.Kv
