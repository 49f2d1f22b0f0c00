import Mathlib.Tactic.SplitIfs
import MineGPT.Kv.Decode

/-!
# The cache as an append-only log

MineGPT only ever appends to the cache.  Then the cache is *linear*: the first
`used` cells hold the tokens of positions `0 .. used - 1`, every other cell is
in its initial state, and the head stands behind the last token (at 0 once the
cache is full).  So the cache refines a log of at most `size` tokens, of which
only the length is left: a batch that fits goes to the free cells behind the
log, and undoing its slots brings the log back.
-/

set_option autoImplicit false

namespace MineGPT.Kv

open MineGPT.Lib.RingSearch

def tokenCell (i : Nat) : KvCell := { pos := i, seqId := {0} }

/-- The cells of a cache of `size` cells in which the `filled` ones hold the
token whose position is their index. -/
def layout (size : Nat) (filled : Nat → Bool) : List KvCell :=
  (List.range size).map fun i => if filled i then tokenCell i else {}

structure Linear (kv : KvCache) : Prop where
  cells : kv.cells = layout kv.size fun i => i < kv.used
  used_le : kv.used ≤ kv.size
  head : kv.head = if kv.used < kv.size then kv.used else 0

theorem linear_init (kvSize : Nat) : Linear (KvCache.init kvSize) where
  cells := by simp [KvCache.init, layout]
  used_le := Nat.zero_le _
  head := (ite_self 0).symm

theorem Linear.head_le {kv : KvCache} (linear : Linear kv) : kv.head ≤ kv.used := by
  rw [linear.head]
  split <;> omega

@[simp] theorem length_layout (size : Nat) (filled : Nat → Bool) :
    (layout size filled).length = size := by simp [layout]

theorem getElem_layout {size : Nat} {filled : Nat → Bool} {i : Nat}
    (inside : i < (layout size filled).length) :
    (layout size filled)[i] = if filled i then tokenCell i else {} := by
  simp [layout]

theorem getD_layout (size : Nat) (filled : Nat → Bool) (i : Nat) :
    (layout size filled).getD i {} = if i < size ∧ filled i = true then tokenCell i else {} := by
  rw [List.getD_eq_getElem?_getD]
  by_cases inside : i < size
  · rw [List.getElem?_eq_getElem (by simpa using inside)]
    simp [getElem_layout, inside]
  · rw [List.getElem?_eq_none (by simpa using inside)]
    simp [inside]

theorem layout_congr {size : Nat} {filled filled' : Nat → Bool}
    (same : ∀ i < size, filled i = filled' i) : layout size filled = layout size filled' := by
  apply List.map_congr_left
  intro i member
  rw [same i (List.mem_range.mp member)]

/-! ## Writing a micro-batch -/

def Columns : Nat → List UToken → Prop
  | _, [] => True
  | k, column :: rest => column.pos = k ∧ column.seqId = [0] ∧ Columns (k + 1) rest

theorem columns_batchAllocr (tokens : List Int) (k : Nat) :
    Columns k (batchAllocr tokens k) := by
  induction tokens generalizing k with
  | nil => trivial
  | cons token rest ih =>
      have shifted : (fun (i : Nat) (token : Int) =>
            ({ token := token, pos := (i + 1 : Nat) + (k : Int), seqId := [0] } : UToken)) =
          fun i token => { token := token, pos := i + ((k + 1 : Nat) : Int), seqId := [0] } := by
        funext i token
        congr 1
        push_cast
        omega
      simp only [batchAllocr, List.mapIdx_cons, shifted]
      exact ⟨by simp, rfl, ih (k + 1)⟩

theorem Columns.take {k : Nat} {columns : List UToken} (ok : Columns k columns) (n : Nat) :
    Columns k (columns.take n) := by
  induction columns generalizing k n with
  | nil => simp [Columns]
  | cons column rest ih =>
      cases n with
      | zero => trivial
      | succ n => exact ⟨ok.1, ok.2.1, ih ok.2.2 n⟩

theorem Columns.drop {k : Nat} {columns : List UToken} (ok : Columns k columns) {n : Nat}
    (inside : n ≤ columns.length) : Columns (k + n) (columns.drop n) := by
  induction columns generalizing k n with
  | nil => simp [Columns]
  | cons column rest ih =>
      cases n with
      | zero => exact ok
      | succ n =>
          have later := ih ok.2.2 (Nat.le_of_succ_le_succ inside)
          rwa [Nat.add_right_comm, Nat.add_assoc] at later

theorem assign_layout (size : Nat) {k : Nat} {column : UToken}
    (pos : column.pos = k) (seqId : column.seqId = [0]) :
    (layout size fun i => i < k).modify k (fun cell => cell.assign column) =
      layout size fun i => i < k + 1 := by
  apply List.ext_getElem
  · simp
  · intro i left right
    rw [List.getElem_modify, getElem_layout, getElem_layout]
    by_cases here : k = i
    · subst here
      simp [KvCell.assign, tokenCell, pos, seqId]
    · have : i < k ↔ i < k + 1 := by omega
      simp [here, this]

theorem assignCells_layout {size : Nat} :
    ∀ (columns : List UToken) (k : Nat), k + columns.length ≤ size → Columns k columns →
      assignCells (layout size fun i => i < k) k columns =
        layout size fun i => i < k + columns.length := by
  intro columns
  induction columns with
  | nil => intro k _ _; rfl
  | cons column rest ih =>
      intro k inside ok
      simp only [List.length_cons] at inside
      rw [assignCells, assign_layout size ok.1 ok.2.1,
        ih (k + 1) (by omega) ok.2.2]
      simp only [List.length_cons]
      congr 1
      funext i
      congr 1
      exact propext (by omega)

/-! ## Finding the slot -/

theorem Linear.cellAt {kv : KvCache} (linear : Linear kv) (i : Nat) :
    kv.cellAt i = if i < kv.used then tokenCell i else {} := by
  have := linear.used_le
  rw [KvCache.cellAt, linear.cells, getD_layout]
  simp only [decide_eq_true_eq]
  split_ifs <;> first | rfl | omega

theorem Linear.pos_nonneg {kv : KvCache} (linear : Linear kv) (i : Nat) :
    0 ≤ (kv.cellAt i).pos ↔ i < kv.used := by
  rw [linear.cellAt]
  split
  · rename_i held
    simp [held, tokenCell]
  · rename_i free
    simp [free]

theorem foldl_pos_layout (k m : Nat) :
    (layout m fun i => i < k).foldl (fun best cell => max best cell.pos) (-1) =
      (min m k : Nat) - 1 := by
  induction m with
  | zero => simp [layout]
  | succ m ih =>
      rw [layout, List.range_succ, List.map_append, List.foldl_append]
      rw [layout] at ih
      rw [ih]
      by_cases held : m < k
      · simp only [held, List.map_cons, List.map_nil, List.foldl_cons, List.foldl_nil,
          decide_true, if_true, tokenCell]
        omega
      · simp only [held, List.map_cons, List.map_nil, List.foldl_cons, List.foldl_nil,
          decide_false, Bool.false_eq_true, if_false]
        omega

theorem Linear.posMax {kv : KvCache} (linear : Linear kv) :
    kv.posMax + 1 = (kv.used : Int) := by
  have := linear.used_le
  rw [KvCache.posMax, linear.cells, foldl_pos_layout]
  omega

theorem Linear.findSlot {kv : KvCache} (linear : Linear kv) {ubatch : List UToken}
    (nonempty : ubatch ≠ []) (fits : kv.used + ubatch.length ≤ kv.size)
    (columns : Columns kv.used ubatch) :
    kv.findSlot ubatch =
      some (.slot kv.used (kv.used + ubatch.length),
        { kv with
          cells := layout kv.size fun i => i < kv.used + ubatch.length
          used := kv.used + ubatch.length }) := by
  have positive : 0 < ubatch.length := List.length_pos_iff.mpr nonempty
  have atHead : kv.head = kv.used := by
    rw [linear.head, if_pos (by omega)]
  have free : ∀ i < ubatch.length,
      decide (0 ≤ (kv.cellAt (kv.head + i)).pos) = false := by
    intro i _
    rw [decide_eq_false_iff_not, linear.pos_nonneg]
    omega
  have searched : search (fun i => decide (0 ≤ (kv.cellAt i).pos)) kv.size ubatch.length
      (2 * kv.size + 2) kv.head 0 = some (.found kv.head) :=
    search_of_free (by omega) free
  have written : assignCells kv.cells kv.used ubatch =
      layout kv.size fun i => i < kv.used + ubatch.length := by
    rw [linear.cells]
    exact assignCells_layout ubatch kv.used fits columns
  rw [KvCache.findSlot, if_neg (by omega), searched]
  simp only [atHead, written]

/-! ## Undoing slots -/

theorem remove_tokenCell (i a b : Nat) :
    (tokenCell i).remove (-1) a b = if a ≤ i ∧ i < b then ({}, true) else (tokenCell i, false) := by
  simp only [KvCell.remove, tokenCell]
  norm_cast

theorem remove_empty (a b : Nat) : ({} : KvCell).remove (-1) a b = ({}, false) := by
  simp only [KvCell.remove]
  rw [if_neg (by omega)]

def heldIn (size : Nat) (filled : Nat → Bool) : Nat := (List.range size).countP filled

theorem heldIn_lt (size k : Nat) : heldIn size (fun i => i < k) = min size k := by
  induction size with
  | zero => simp [heldIn]
  | succ size ih =>
      rw [heldIn] at ih
      rw [heldIn, List.range_succ, List.countP_append, ih, List.countP_singleton]
      split <;> rename_i h <;> simp only [decide_eq_true_eq] at h <;> omega

theorem heldIn_congr {size : Nat} {filled filled' : Nat → Bool}
    (same : ∀ i < size, filled i = filled' i) : heldIn size filled = heldIn size filled' := by
  apply List.countP_congr
  intro i member
  rw [same i (List.mem_range.mp member)]

def inSlot (slot : Nat × Nat) (i : Nat) : Bool := slot.1 ≤ i && i < slot.2

theorem remove_layout (filled : Nat → Bool) (i : Nat) (slot : Nat × Nat) :
    (if filled i then tokenCell i else {}).remove (-1) slot.1 slot.2 =
      (if filled i && !inSlot slot i then tokenCell i else {}, filled i && inSlot slot i) := by
  cases held : filled i with
  | false => simp [remove_empty]
  | true =>
      simp only [if_true, remove_tokenCell, inSlot, Bool.true_and]
      by_cases inside : slot.1 ≤ i ∧ i < slot.2
      · simp [inside]
      · have : ¬ (slot.1 ≤ i ∧ i < slot.2) := inside
        rw [if_neg inside]
        simp only [not_and] at inside
        by_cases low : slot.1 ≤ i
        · simp [low, inside low]
        · simp [low]

theorem freed_behind {cells : List KvCell} {size : Nat} {filled : Nat → Bool}
    (linear : cells = layout size filled) (slot : Nat × Nat) {i : Nat}
    (inside : i < cells.length) (freed : (cells[i].remove (-1) slot.1 slot.2).2 = true) :
    slot.1 ≤ i := by
  subst linear
  rw [getElem_layout, remove_layout] at freed
  simp only [inSlot, Bool.and_eq_true, decide_eq_true_eq] at freed
  exact freed.2.1

/-- Removing a slot at or behind the head empties its cells and nothing else. -/
theorem seqRm_layout {kv : KvCache} {filled : Nat → Bool}
    (cells : kv.cells = layout kv.size filled) (used : kv.used = heldIn kv.size filled)
    (slot : Nat × Nat) (behind : kv.head ≤ slot.1) :
    kv.seqRm (-1) slot.1 slot.2 =
      { kv with
        cells := layout kv.size fun i => filled i && !inSlot slot i
        used := heldIn kv.size fun i => filled i && !inSlot slot i } := by
  have notNegative : ∀ a : Nat, ¬ ((a : Int) < 0) := fun a => by omega
  have freedCells : (kv.cells.map fun cell => (cell.remove (-1) slot.1 slot.2).1) =
      layout kv.size fun i => filled i && !inSlot slot i := by
    rw [cells, layout, List.map_map]
    apply List.map_congr_left
    intro i _
    simp only [Function.comp_apply, remove_layout]
  have freedCount : kv.cells.countP (fun cell => (cell.remove (-1) slot.1 slot.2).2) =
      heldIn kv.size fun i => filled i && inSlot slot i := by
    rw [cells, layout, List.countP_map]
    apply List.countP_congr
    intro i _
    simp only [Function.comp_apply, remove_layout]
  have split : kv.used = heldIn kv.size (fun i => filled i && inSlot slot i) +
      heldIn kv.size fun i => filled i && !inSlot slot i := by
    rw [used, heldIn, List.countP_eq_countP_filter_add _ filled (inSlot slot),
      List.countP_filter, List.countP_filter]
    rfl
  have headStays : ¬ (kv.cells.findIdx (fun cell => (cell.remove (-1) slot.1 slot.2).2) ≠ kv.size
      ∧ kv.cells.findIdx (fun cell => (cell.remove (-1) slot.1 slot.2).2) < kv.head) := by
    rintro ⟨_, before⟩
    have length : kv.cells.length = kv.size := by rw [cells, length_layout]
    have inside : kv.cells.findIdx (fun cell => (cell.remove (-1) slot.1 slot.2).2) <
        kv.cells.length := by
      have : kv.cells.findIdx (fun cell => (cell.remove (-1) slot.1 slot.2).2) ≤
        kv.cells.length := List.findIdx_le_length
      omega
    have := freed_behind cells slot inside (@List.findIdx_getElem _ _ _ inside)
    omega
  simp only [KvCache.seqRm, notNegative, if_false, if_neg headStays, freedCells, freedCount]
  congr 1
  omega

theorem foldl_seqRm_layout :
    ∀ (slots : List (Nat × Nat)) (kv : KvCache) (filled : Nat → Bool),
      kv.cells = layout kv.size filled → kv.used = heldIn kv.size filled →
      (∀ slot ∈ slots, kv.head ≤ slot.1) →
      slots.foldl (fun cache slot => cache.seqRm (-1) slot.1 slot.2) kv =
        { kv with
          cells := layout kv.size fun i => filled i && !slots.any (inSlot · i)
          used := heldIn kv.size fun i => filled i && !slots.any (inSlot · i) } := by
  intro slots
  induction slots with
  | nil =>
      intro kv filled cells used _
      simp only [List.foldl_nil, List.any_nil, Bool.not_false, Bool.and_true, ← cells, ← used]
  | cons slot rest ih =>
      intro kv filled cells used behind
      have removed := seqRm_layout cells used slot (behind slot (by simp))
      rw [List.foldl_cons, removed]
      refine (ih { kv with
        cells := layout kv.size fun i => filled i && !inSlot slot i
        used := heldIn kv.size fun i => filled i && !inSlot slot i } _ rfl rfl
          (fun later member => behind later (by simp [member]))).trans ?_
      simp only [List.any_cons, Bool.not_or, Bool.and_assoc]

end MineGPT.Kv
