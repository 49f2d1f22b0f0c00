import Mathlib.Data.Finset.Basic
import Mathlib.Data.Finset.Lattice.Fold
import MineGPT.Lib.RingSearch

/-!
# The unified KV cache

The cells, the ring-buffer slot search, `seq_rm` and the slot restorer of
`llama-kv-cache`, for a cache that is not recurrent.  Nothing here shifts or
defragments, as MineGPT never asks for either.
-/

set_option autoImplicit false

namespace MineGPT.Kv

open MineGPT.Lib.RingSearch

/-- `llama_kv_cell` with its initial values. -/
structure KvCell where
  pos : Int := -1
  delta : Int := 0
  src : Int := -1
  tail : Int := -1
  seqId : Finset Int := ∅
  deriving DecidableEq

def KvCell.isEmpty (cell : KvCell) : Bool := cell.seqId = ∅

/-- `llama_kv_cache_unified`: the members the token bookkeeping uses. -/
structure KvCache where
  head : Nat
  size : Nat
  used : Nat
  n : Nat
  cells : List KvCell
  deriving DecidableEq

namespace KvCache

/-- The cache of a new context, whose constructor has reserved a graph for all of it. -/
def init (kvSize : Nat) : KvCache :=
  { head := 0, size := kvSize, used := 0, n := kvSize, cells := List.replicate kvSize {} }

def cellAt (kv : KvCache) (i : Nat) : KvCell := kv.cells.getD i {}

def getUsedCells (kv : KvCache) : Nat := kv.used

def posMax (kv : KvCache) : Int :=
  kv.cells.foldl (fun best cell => max best cell.pos) (-1)

def cellMax (kv : KvCache) : Nat :=
  match (List.range kv.size).reverse.find? fun i =>
      0 ≤ (kv.cellAt i).pos && !(kv.cellAt i).isEmpty with
  | some i => i + 1
  | none => 0

end KvCache

/-- One column of a `llama_ubatch` of a simple split: a token with its position
and sequence ids. -/
structure UToken where
  token : Int
  pos : Int
  seqId : List Int
  deriving DecidableEq, Repr

/-- `llama_kv_cache_slot_info`: the slot `[first, second)`, if one was found. -/
inductive SlotInfo where
  | failed
  | slot (first second : Nat)
  deriving DecidableEq, Repr

def KvCell.assign (cell : KvCell) (column : UToken) : KvCell :=
  { cell with pos := column.pos, seqId := cell.seqId ∪ column.seqId.toFinset }

def assignCells : List KvCell → Nat → List UToken → List KvCell
  | cells, _, [] => cells
  | cells, head, column :: rest =>
    assignCells (cells.modify head fun cell => cell.assign column) (head + 1) rest

/-- `find_slot`; the outer `none` is a search that never ends. -/
def KvCache.findSlot (kv : KvCache) (ubatch : List UToken) : Option (SlotInfo × KvCache) :=
  if kv.size < ubatch.length then some (.failed, kv)
  else
    match search (fun i => decide (0 ≤ (kv.cellAt i).pos)) kv.size ubatch.length
        (2 * kv.size + 2) kv.head 0 with
    | none => none
    | some (.failed head) => some (.failed, { kv with head := head })
    | some (.found head) =>
      some (.slot head (head + ubatch.length),
        { kv with
          head := head
          cells := assignCells kv.cells head ubatch
          used := kv.used + ubatch.length })

theorem KvCache.findSlot_ends (kv : KvCache) (ubatch : List UToken) :
    kv.findSlot ubatch ≠ none := by
  simp only [findSlot]
  split
  · simp
  · rename_i fits
    have inside : ubatch.length ≤ kv.size := Nat.le_of_not_lt fits
    obtain ⟨outcome, searched⟩ := @search_terminates
      (fun i => decide (0 ≤ (kv.cellAt i).pos)) _ _ inside (2 * kv.size + 2) kv.head 0
      (by split <;> omega)
    rw [searched]
    cases outcome <;> simp

/-- A slot that is found is as long as the micro-batch, inside the cache and
free. -/
theorem KvCache.findSlot_free {kv after : KvCache} {ubatch : List UToken} {first second : Nat}
    (answer : kv.findSlot ubatch = some (.slot first second, after)) :
    second = first + ubatch.length ∧ second ≤ kv.size ∧
      ∀ i, first ≤ i → i < second → (kv.cellAt i).pos < 0 := by
  simp only [findSlot] at answer
  split at answer
  · simp at answer
  · split at answer
    · simp at answer
    · simp at answer
    · rename_i head searched
      simp only [Option.some.injEq, Prod.mk.injEq, SlotInfo.slot.injEq] at answer
      obtain ⟨⟨rfl, rfl⟩, _⟩ := answer
      obtain ⟨inside, free⟩ := search_found searched
      refine ⟨rfl, inside, ?_⟩
      intro i low high
      have here := free (i - head) (by omega)
      rw [decide_eq_false_iff_not, Nat.add_sub_cancel' low] at here
      omega

/-! ## Removing cells -/

/-- The loop body of `seq_rm`: the cell afterwards, and whether it was freed. -/
def KvCell.remove (cell : KvCell) (seqId p0 p1 : Int) : KvCell × Bool :=
  if p0 ≤ cell.pos ∧ cell.pos < p1 then
    if seqId < 0 then ({ cell with seqId := ∅, pos := -1, src := -1 }, true)
    else if seqId ∈ cell.seqId then
      if cell.seqId.erase seqId = ∅ then
        ({ cell with seqId := ∅, pos := -1, src := -1 }, true)
      else ({ cell with seqId := cell.seqId.erase seqId }, false)
    else (cell, false)
  else (cell, false)

/-- `seq_rm(seq_id, p0, p1)`; a freed cell before the head becomes the head. -/
def KvCache.seqRm (kv : KvCache) (seqId p0 p1 : Int) : KvCache :=
  let p0 := if p0 < 0 then 0 else p0
  let p1 := if p1 < 0 then 0x7fffffff else p1
  let freed := fun cell : KvCell => (cell.remove seqId p0 p1).2
  let newHead := kv.cells.findIdx freed
  { kv with
    cells := kv.cells.map fun cell => (cell.remove seqId p0 p1).1
    used := kv.used - kv.cells.countP freed
    head := if newHead ≠ kv.size ∧ newHead < kv.head then newHead else kv.head }

/-! ## Undoing slots -/

structure SlotRestorer where
  oldHead : Nat
  oldN : Nat
  slotBoundaries : List (Nat × Nat)
  doRestore : Bool
  deriving DecidableEq, Repr

namespace SlotRestorer

def init (kv : KvCache) : SlotRestorer :=
  { oldHead := kv.head, oldN := kv.n, slotBoundaries := [], doRestore := false }

def save (restorer : SlotRestorer) (first second : Nat) : SlotRestorer :=
  { restorer with
    doRestore := true
    slotBoundaries :=
      if first ≠ second then restorer.slotBoundaries ++ [(first, second)]
      else restorer.slotBoundaries }

def restore (restorer : SlotRestorer) (kv : KvCache) : KvCache :=
  if restorer.doRestore then
    restorer.slotBoundaries.foldl (fun cache slot => cache.seqRm (-1) slot.1 slot.2)
      { kv with head := restorer.oldHead, n := restorer.oldN }
  else kv

end SlotRestorer

end MineGPT.Kv
