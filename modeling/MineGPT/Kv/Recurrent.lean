import Mathlib.Data.Finset.Card
import MineGPT.Kv.Cache

/-!
# The cache of a recurrent model

Mamba and RWKV keep one cell for a whole sequence; `cells[id].tail` is the cell of
the sequence `id`.  Here are their branch of `find_slot` and of the slot restorer,
which erases every cell, as such a state cannot be taken back in part.

MineGPT's context has one cell and its batches one sequence.  Erasing clears the
cell but not the tail that points to it, and the next `find_slot` fails its
assertion on that tail.
-/

set_option autoImplicit false

namespace MineGPT.Kv

/-- How `find_slot` ends on a recurrent cache. -/
inductive RecurrentSlot where
  | assertFailed
  | failed (kv : KvCache)
  | found (kv : KvCache)

namespace KvCache

def modifyCell (kv : KvCache) (i : Int) (change : KvCell → KvCell) : KvCache :=
  { kv with cells := kv.cells.modify i.toNat change }

/-- The sequence `id` becomes a shared one and gives up its cell. -/
def leaveCell (kv : KvCache) (id : Int) : KvCache :=
  let tail := (kv.cellAt id.toNat).tail
  if 0 ≤ tail then
    let left := (kv.cellAt tail.toNat).seqId.erase id
    let kv := kv.modifyCell tail fun cell => { cell with seqId := left }
    let kv := kv.modifyCell id fun cell => { cell with tail := -1 }
    if left = ∅ then
      { kv.modifyCell tail fun cell => { cell with pos := -1, src := -1 } with
        used := kv.used - 1 }
    else kv
  else kv

/-- `everything should fit if all seq_ids are smaller than the max`; the ids come with
their index in their sequence. -/
def checkIds : KvCache → List (Int × Nat) → KvCache × Bool
  | kv, [] => (kv, true)
  | kv, (id, j) :: rest =>
    if id < 0 ∨ (kv.size : Int) ≤ id then (kv, false)
    else checkIds (if 0 < j then kv.leaveCell id else kv) rest

def nextEmptyCell (kv : KvCache) : Nat → Nat → Nat
  | 0, next => next
  | rounds + 1, next =>
    let next := if kv.size ≤ next then next - kv.size else next
    if (kv.cellAt next).isEmpty then next else nextEmptyCell kv rounds (next + 1)

/-- `find usable cell range`: a cell for each sequence, and the smallest and the largest
of them.  `none` is a `GGML_ASSERT` that fails, or no empty cell at all. -/
def takeCells : KvCache → Nat → Int → Int → List Int → Option (KvCache × Int × Int)
  | kv, _, low, high, [] => some (kv, low, high)
  | kv, next, low, high, id :: rest =>
    let tail := (kv.cellAt id.toNat).tail
    let tailSeqs := (kv.cellAt tail.toNat).seqId
    if 0 ≤ tail ∧ id ∉ tailSeqs then none
    else if 0 ≤ tail ∧ tailSeqs.card = 1 then
      takeCells kv next (min low tail) (max high tail) rest
    else if kv.size ≤ next ∨ ¬ (kv.cellAt next).isEmpty then none
    else
      -- the old tail is copied into the empty cell
      let kv :=
        if 0 ≤ tail then
          let old := kv.cellAt tail.toNat
          (kv.modifyCell next fun cell =>
              { cell with pos := old.pos, src := old.src, seqId := insert id cell.seqId }).modifyCell
            tail fun cell => { cell with seqId := cell.seqId.erase id }
        else kv
      let kv := kv.modifyCell id fun cell => { cell with tail := next }
      let behind := if rest = [] then next else kv.nextEmptyCell kv.size (next + 1)
      takeCells kv behind (min low next) (max high next) rest

/-- `std::swap` of two cells, without their tails, which then follow the sequences. -/
def swapCells (kv : KvCache) (dst src : Int) : KvCache :=
  let first := kv.cellAt dst.toNat
  let second := kv.cellAt src.toNat
  let put := fun (source cell : KvCell) =>
    { cell with pos := source.pos, src := source.src, seqId := source.seqId }
  let kv := (kv.modifyCell dst (put second)).modifyCell src (put first)
  { kv with
    cells := kv.cells.mapIdx fun i cell =>
      if (i : Int) ∈ second.seqId then { cell with tail := dst }
      else if (i : Int) ∈ first.seqId then { cell with tail := src }
      else cell }

/-- `gather and re-order`: the cells of the sequences in a row. -/
def gather : KvCache → Int → List Int → KvCache
  | kv, _, [] => kv
  | kv, dst, id :: rest =>
    let src := (kv.cellAt id.toNat).tail
    gather (if dst = src then kv else kv.swapCells dst src) (dst + 1) rest

/-- `update the pos of the used seqs`. -/
def settleSeqs (nSeqTokens : Nat) (pos : List Int) : KvCache → Nat → Int → List (List Int) → KvCache
  | kv, _, _, [] => kv
  | kv, s, cellId, ids :: rest =>
    let lastPos := pos.getD (nSeqTokens * s + nSeqTokens - 1) 0
    let kv := kv.modifyCell cellId fun cell =>
      { cell with pos := lastPos, seqId := ids.toFinset }
    let kv := ids.foldl (fun kv id => kv.modifyCell id fun cell => { cell with tail := cellId }) kv
    settleSeqs nSeqTokens pos kv (s + 1) (cellId + 1) rest

/-- `find_slot` on a recurrent cache, for a micro-batch of sequences of equal length with
their ids and the positions of all tokens. -/
def findSlotRecurrent (kv : KvCache) (nSeqTokens : Nat) (seqId : List (List Int))
    (pos : List Int) : RecurrentSlot :=
  match kv.checkIds (seqId.flatMap fun ids => ids.zipIdx) with
  | (kv, false) => .failed kv
  | (kv, true) =>
    let owners := seqId.map fun ids => ids.headD 0
    match kv.takeCells (kv.nextEmptyCell kv.size kv.head) (kv.size - 1) 0 owners with
    | none => .assertFailed
    | some (kv, low, high) =>
      let kv := settleSeqs nSeqTokens pos (kv.gather low owners) 0 low seqId
      let n := (high - low + 1).toNat
      let kv := { kv with
        head := low.toNat
        n := n
        used := kv.cells.countP fun cell => !cell.isEmpty }
      if seqId.length ≤ n then .found kv else .failed kv

end KvCache

/-- `restore` on a recurrent cache. -/
def SlotRestorer.restoreRecurrent (restorer : SlotRestorer) (kv : KvCache) : KvCache :=
  if restorer.doRestore then
    { kv with head := restorer.oldHead, n := restorer.oldN }.seqRm (-1) (-1) (-1)
  else kv

/-! ## One cell, one sequence -/

/-- The cache of MineGPT's context for a recurrent model. -/
structure OneCell (kv : KvCache) (cell : KvCell) : Prop where
  cells : kv.cells = [cell]
  size : kv.size = 1
  head : kv.head = 0

def KvCell.Live (cell : KvCell) : Prop :=
  cell.tail = -1 ∧ cell.seqId = ∅ ∨ cell.tail = 0 ∧ cell.seqId = {0}

/-- An erased cell: the sequence's tail still points to it. -/
def KvCell.Erased (cell : KvCell) : Prop := cell.tail = 0 ∧ cell.seqId = ∅

/-- The cell behind a micro-batch of the sequence 0 that ends at this position. -/
def KvCell.hold (cell : KvCell) (pos : Int) : KvCell :=
  { cell with pos := pos, seqId := {0}, tail := 0 }

theorem OneCell.findSlot_live {kv : KvCache} {cell : KvCell} (one : OneCell kv cell)
    (live : cell.Live) (nSeqTokens : Nat) (pos : List Int) :
    kv.findSlotRecurrent nSeqTokens [[0]] pos =
      .found { head := 0, size := 1, used := 1, n := 1
               cells := [cell.hold (pos.getD (nSeqTokens - 1) 0)] } := by
  obtain ⟨cells, size, head⟩ := one
  cases kv with
  | mk head' size' used n cells' =>
    simp only at cells size head
    subst cells size head
    rcases live with ⟨tail, seqs⟩ | ⟨tail, seqs⟩
    · simp [KvCache.findSlotRecurrent, KvCache.checkIds, KvCache.takeCells, KvCache.cellAt, tail, seqs,
        KvCache.nextEmptyCell, KvCell.isEmpty, KvCache.gather, KvCache.settleSeqs, KvCache.modifyCell,
        KvCell.hold]
    · simp [KvCache.findSlotRecurrent, KvCache.checkIds, KvCache.takeCells, KvCache.cellAt, tail, seqs,
        KvCache.nextEmptyCell, KvCell.isEmpty, KvCache.gather, KvCache.settleSeqs, KvCache.modifyCell,
        KvCell.hold]

theorem OneCell.findSlot_erased {kv : KvCache} {cell : KvCell} (one : OneCell kv cell)
    (erased : cell.Erased) (nSeqTokens : Nat) (pos : List Int) :
    kv.findSlotRecurrent nSeqTokens [[0]] pos = .assertFailed := by
  obtain ⟨tail, seqs⟩ := erased
  simp [KvCache.findSlotRecurrent, KvCache.checkIds, KvCache.takeCells, KvCache.cellAt, one.cells,
    one.size, tail, seqs]

end MineGPT.Kv
