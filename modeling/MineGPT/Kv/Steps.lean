import MineGPT.Kv.Entries

/-!
# What each operation does to the entries
-/

set_option autoImplicit false

namespace MineGPT.Kv

open MineGPT.Lib.Places MineGPT.Lib.Compaction MineGPT.Lib.RingSearch

/-! ## Counting the cells -/

theorem count_taken (cells : List KvCell) :
    Nat.count (fun i => KvCell.Taken (cells.getD i {})) cells.length =
      cells.countP fun cell => cell.Taken := by
  induction cells with
  | nil => rfl
  | cons cell rest ih =>
      rw [List.length_cons, Nat.count_succ', List.countP_cons]
      simp only [List.getD_cons_succ, List.getD_cons_zero, decide_eq_true_eq]
      rw [ih]

section Store

variable {β : Type}

theorem card_entries {kv : KvStore β} (length : kv.cache.cells.length = kv.cache.size) :
    kv.entries.card = kv.cache.cells.countP fun cell => cell.Taken := by
  rw [KvStore.entries, card_held, ← count_taken, length]
  simp only [KvStore.contentAt, isSome_entry]
  rfl

theorem KvCache.Consistent.used_eq {kv : KvStore β} (consistent : kv.cache.Consistent) :
    kv.cache.used = kv.entries.card := by
  rw [card_entries consistent.length, consistent.used]

theorem KvCache.Consistent.used_le {kv : KvCache} (consistent : kv.Consistent) :
    kv.used ≤ kv.size := by
  rw [consistent.used, ← consistent.length]
  exact List.countP_le_length

/-! ## Operations on sequences -/

theorem lowerHead_le {kv : KvCache} (consistent : kv.Consistent) (newHead : Nat) :
    kv.lowerHead newHead ≤ kv.size := by
  have inside := consistent.head
  unfold KvCache.lowerHead
  split_ifs <;> omega

theorem KvCache.Consistent.clear {kv : KvCache} (consistent : kv.Consistent) :
    kv.clear.Consistent := by
  have cleared := consistent.cellwise cellwise_clear (Nat.zero_le kv.size)
  have none : kv.used - kv.cells.countP (fun cell => cell.Taken) = 0 := by
    rw [consistent.used, Nat.sub_self]
  rwa [none] at cleared

theorem KvCache.Consistent.seqRm {kv : KvCache} (consistent : kv.Consistent) (seqId p0 p1 : Int) :
    (kv.seqRm seqId p0 p1).Consistent :=
  consistent.cellwise (cellwise_remove (rangeBegin_nonneg p0) seqId (rangeEnd p1))
    (lowerHead_le consistent _)

theorem KvCache.Consistent.seqCp {kv : KvCache} (consistent : kv.Consistent)
    (src dst p0 p1 : Int) : (kv.seqCp src dst p0 p1).Consistent := by
  unfold KvCache.seqCp
  split_ifs with same
  · exact consistent
  · exact consistent.cellwise_kept (cellwise_copy src dst (rangeBegin p0) (rangeEnd p1))
      (Nat.zero_le kv.size)

theorem KvCache.Consistent.seqKeep {kv : KvCache} (consistent : kv.Consistent) (seqId : Int) :
    (kv.seqKeep seqId).Consistent :=
  consistent.cellwise (cellwise_keep seqId) (lowerHead_le consistent _)

theorem KvCache.Consistent.seqAdd {kv : KvCache} (consistent : kv.Consistent)
    (seqId p0 p1 delta : Int) : (kv.seqAdd seqId p0 p1 delta).1.Consistent := by
  unfold KvCache.seqAdd
  by_cases nothing : delta = 0 ∨ rangeBegin p0 = rangeEnd p1
  · rw [if_pos nothing]
    exact consistent
  · rw [if_neg nothing]
    refine consistent.cellwise (cellwise_add seqId _ _ delta) ?_
    have inside : kv.cells.findIdx (fun cell => cell.shiftedOut seqId (rangeBegin p0) (rangeEnd p1)
        delta) ≤ kv.size := consistent.length ▸ List.findIdx_le_length
    split_ifs
    · exact inside
    · exact Nat.zero_le _

theorem KvCache.Consistent.seqDiv {kv : KvCache} (consistent : kv.Consistent) {d : Int}
    (positive : 0 < d) (seqId p0 p1 : Int) : (kv.seqDiv seqId p0 p1 d).1.Consistent := by
  unfold KvCache.seqDiv
  dsimp only
  split_ifs with nothing
  · exact consistent
  · exact consistent.cellwise_kept
      (cellwise_divide (rangeBegin_nonneg p0) positive seqId (rangeEnd p1)) consistent.head

theorem entries_clear {kv : KvStore β} {cache : KvCache} (cleared : kv.cache = cache.clear) :
    kv.entries = 0 := by
  rw [Multiset.eq_zero_iff_forall_notMem]
  intro e member
  obtain ⟨i, _, here⟩ := mem_held.mp member
  have empty : (kv.cache.cellAt i).seqId = ∅ := by
    rw [cleared, KvCache.cellAt, KvCache.clear, List.getD_eq_getElem?_getD, List.getElem?_map]
    cases cache.cells[i]? <;> rfl
  rw [KvStore.contentAt, entry_none empty] at here
  exact Option.some_ne_none e here.symm

theorem entries_seqRm {kv : KvStore β} (consistent : kv.cache.Consistent) (seqId p0 p1 : Int) :
    KvStore.entries { kv with cache := kv.cache.seqRm seqId p0 p1 } =
      kv.entries.filterMap (Entry.remove seqId (rangeBegin p0) (rangeEnd p1)) :=
  entries_cellwise consistent (cellwise_remove (rangeBegin_nonneg p0) seqId (rangeEnd p1))
    rfl rfl rfl

theorem entries_seqCp {kv : KvStore β} (consistent : kv.cache.Consistent) (src dst p0 p1 : Int) :
    KvStore.entries { kv with cache := kv.cache.seqCp src dst p0 p1 } =
      kv.entries.filterMap (Entry.copy src dst (rangeBegin p0) (rangeEnd p1)) := by
  unfold KvCache.seqCp
  split_ifs with same
  · have nothing : (Entry.copy src dst (rangeBegin p0) (rangeEnd p1) :
        Entry β → Option (Entry β)) = some := by
      funext e
      rw [Entry.copy]
      split_ifs with selected
      · rw [← same, Finset.insert_eq_of_mem selected.1]
      · rfl
    rw [nothing, Multiset.filterMap_some]
  · exact entries_cellwise consistent (cellwise_copy src dst _ _) rfl rfl rfl

theorem entries_seqKeep {kv : KvStore β} (consistent : kv.cache.Consistent) (seqId : Int) :
    KvStore.entries { kv with cache := kv.cache.seqKeep seqId } =
      kv.entries.filterMap (Entry.keep seqId) :=
  entries_cellwise consistent (cellwise_keep seqId) rfl rfl rfl

theorem entries_seqAdd {kv : KvStore β} (consistent : kv.cache.Consistent)
    (seqId p0 p1 delta : Int) :
    (kv.seqAdd seqId p0 p1 delta).entries =
      kv.entries.filterMap (Entry.add seqId (rangeBegin p0) (rangeEnd p1) delta) := by
  have low := rangeBegin_nonneg p0
  unfold KvStore.seqAdd KvCache.seqAdd
  dsimp only
  by_cases nothing : delta = 0 ∨ rangeBegin p0 = rangeEnd p1
  · have stays : (Entry.add seqId (rangeBegin p0) (rangeEnd p1) delta :
        Entry β → Option (Entry β)) = some := by
      funext e
      rw [Entry.add]
      by_cases selected : e.Selected seqId (rangeBegin p0) (rangeEnd p1)
      · obtain ⟨_, above, below⟩ := selected
        rcases nothing with zero | empty
        · rw [if_pos ⟨‹_›, above, below⟩, zero, if_neg (by omega), Int.add_zero, Int.add_zero]
        · omega
      · rw [if_neg selected]
    rw [if_pos nothing, stays, Multiset.filterMap_some]
    rfl
  · rw [if_neg nothing]
    exact entries_cellwise consistent (cellwise_add seqId _ _ delta) rfl rfl rfl

theorem entries_seqDiv {kv : KvStore β} (consistent : kv.cache.Consistent) {d : Int}
    (positive : 0 < d) (seqId p0 p1 : Int) :
    (kv.seqDiv seqId p0 p1 d).entries =
      kv.entries.filterMap (Entry.divide seqId (rangeBegin p0) (rangeEnd p1) d) := by
  unfold KvStore.seqDiv KvCache.seqDiv
  dsimp only
  by_cases nothing : d = 1 ∨ rangeBegin p0 = rangeEnd p1
  · have stays : (Entry.divide seqId (rangeBegin p0) (rangeEnd p1) d :
        Entry β → Option (Entry β)) = some := by
      funext e
      rw [Entry.divide]
      by_cases selected : e.Selected seqId (rangeBegin p0) (rangeEnd p1)
      · obtain ⟨_, above, below⟩ := selected
        rcases nothing with one | empty
        · rw [if_pos ⟨‹_›, above, below⟩, one, Int.ediv_one, Int.sub_self, Int.add_zero]
        · omega
      · rw [if_neg selected]
    rw [if_pos nothing, stays, Multiset.filterMap_some]
    rfl
  · rw [if_neg nothing]
    exact entries_cellwise consistent
      (cellwise_divide (rangeBegin_nonneg p0) positive seqId (rangeEnd p1)) rfl rfl rfl

end Store

/-! ## A slot for a micro-batch -/

@[simp] theorem length_assignCells : ∀ (ubatch : List UToken) (cells : List KvCell) (head : Nat),
    (assignCells cells head ubatch).length = cells.length := by
  intro ubatch
  induction ubatch with
  | nil => exact fun _ _ => rfl
  | cons column rest ih =>
      intro cells head
      rw [assignCells, ih, List.length_modify]

theorem getElem?_assignCells : ∀ (ubatch : List UToken) (cells : List KvCell) (head i : Nat),
    (assignCells cells head ubatch)[i]? =
      if i < head then cells[i]?
      else match ubatch[i - head]? with
        | some column => cells[i]?.map fun cell => cell.assign column
        | none => cells[i]? := by
  intro ubatch
  induction ubatch with
  | nil => exact fun cells head i => (ite_self _).symm
  | cons column rest ih =>
      intro cells head i
      rw [assignCells, ih]
      rcases Nat.lt_trichotomy i head with early | here | late
      · rw [if_pos (by omega), if_pos early,
          List.getElem?_modify_ne _ _ (show head ≠ i by omega)]
      · rw [if_pos (by omega), if_neg (by omega), here, Nat.sub_self, List.getElem?_modify_eq]
        rfl
      · obtain ⟨k, rfl⟩ : ∃ k, i = head + 1 + k := ⟨i - (head + 1), by omega⟩
        rw [if_neg (by omega), if_neg (by omega), Nat.add_sub_cancel_left,
          List.getElem?_modify_ne _ _ (show head ≠ head + 1 + k by omega),
            show head + 1 + k - head = k + 1 by omega]
        rfl

theorem forall_assignCells {P : KvCell → Prop} : ∀ (ubatch : List UToken) (cells : List KvCell)
    (head : Nat), (∀ cell column, P cell → P (cell.assign column)) → (∀ cell ∈ cells, P cell) →
    ∀ cell ∈ assignCells cells head ubatch, P cell := by
  intro ubatch
  induction ubatch with
  | nil => exact fun _ _ _ all => all
  | cons column rest ih =>
      intro cells head assign all
      refine ih _ _ assign fun cell member => ?_
      obtain ⟨i, here⟩ := List.mem_iff_getElem?.mp member
      rw [List.getElem?_modify] at here
      obtain ⟨before, known, rfl⟩ := Option.map_eq_some_iff.mp here
      have held := all before (List.mem_of_getElem? known)
      split_ifs
      · exact assign before column held
      · exact held

def UToken.entry {β : Type} (column : UToken) (delta : Int) (row : β) : Entry β :=
  { pos := column.pos, delta := delta, seqId := column.seqId.toFinset, row := row }

/-- The columns a batch may have. -/
def UToken.Proper (column : UToken) : Prop := 0 ≤ column.pos ∧ column.seqId ≠ []

instance (column : UToken) : Decidable column.Proper := inferInstanceAs (Decidable (_ ∧ _))

theorem assign_free {cell : KvCell} (empty : cell.seqId = ∅) (column : UToken) :
    (cell.assign column).seqId = column.seqId.toFinset := by
  simp [KvCell.assign, empty]

theorem UToken.Proper.full {column : UToken} (proper : column.Proper) :
    column.seqId.toFinset ≠ ∅ := by
  simpa using proper.2

section Slot

variable {β : Type} {kv after : KvCache} {ubatch : List UToken}

theorem findSlot_failed (consistent : kv.Consistent)
    (answer : kv.findSlot ubatch = some (.failed, after)) :
    after.Consistent ∧ ∃ head, after = { kv with head := head } := by
  rw [KvCache.findSlot] at answer
  split_ifs at answer with large
  · cases Option.some.inj answer
    exact ⟨consistent, kv.head, rfl⟩
  · cases searched : search (fun i => decide (0 ≤ (kv.cellAt i).pos)) kv.size ubatch.length
        (2 * kv.size + 2) kv.head 0 with
    | none => simp [searched] at answer
    | some outcome =>
        rw [searched] at answer
        cases outcome with
        | found head => simp at answer
        | failed head =>
            cases Option.some.inj answer
            have inside := search_failed searched
            exact ⟨{ consistent with head := inside }, head, rfl⟩

theorem findSlot_slot {first second : Nat}
    (answer : kv.findSlot ubatch = some (.slot first second, after)) :
    first + ubatch.length ≤ kv.size ∧ (∀ i, first ≤ i → i < second → (kv.cellAt i).pos < 0) ∧
      second = first + ubatch.length ∧
      after = { kv with
        head := first
        cells := assignCells kv.cells first ubatch
        used := kv.used + ubatch.length } := by
  obtain ⟨ends, inside, free⟩ := KvCache.findSlot_free answer
  refine ⟨ends ▸ inside, free, ends, ?_⟩
  rw [KvCache.findSlot] at answer
  split_ifs at answer with large
  · simp at answer
  · cases searched : search (fun i => decide (0 ≤ (kv.cellAt i).pos)) kv.size ubatch.length
        (2 * kv.size + 2) kv.head 0 with
    | none => simp [searched] at answer
    | some outcome =>
        rw [searched] at answer
        cases outcome with
        | failed head => simp at answer
        | found head =>
            simp only [Option.some.injEq, Prod.mk.injEq, SlotInfo.slot.injEq] at answer
            obtain ⟨⟨rfl, _⟩, same⟩ := answer
            exact same.symm

end Slot

section SlotEntries

variable {β : Type} {kv after : KvStore β} {ubatch : List UToken}
  {first : Nat}

theorem taken_cellAt {kv : KvCache} (consistent : kv.Consistent) (i : Nat) :
    (kv.cellAt i).Taken ↔ 0 ≤ (kv.cellAt i).pos := by
  rcases Nat.lt_or_ge i kv.cells.length with less | beyond
  · rw [KvCache.cellAt_of_lt less]
    exact (consistent.sane _ (List.getElem_mem less)).taken
  · have default : kv.cellAt i = {} := List.getD_eq_default _ _ beyond
    rw [default]
    decide

/-- What the slot of a micro-batch holds; a free cell may have a `delta` left. -/
def slotEntries (kv : KvCache) (rows : Nat → β) (first : Nat) (ubatch : List UToken) :
    List (Entry β) :=
  ubatch.mapIdx fun k column => column.entry (kv.cellAt (first + k)).delta (rows (first + k))

theorem cellAt_slot (cells : List KvCell) {k : Nat} (inside : first + k < cells.length)
    (column : UToken) (here : ubatch[k]? = some column) :
    (assignCells cells first ubatch).getD (first + k) {} =
      (cells.getD (first + k) {}).assign column := by
  rw [List.getD_eq_getElem?_getD, List.getD_eq_getElem?_getD, getElem?_assignCells,
    if_neg (by omega), Nat.add_sub_cancel_left, here, List.getElem?_eq_getElem inside]
  rfl

theorem cellAt_outside (cells : List KvCell) {i : Nat}
    (outside : i < first ∨ first + ubatch.length ≤ i) :
    (assignCells cells first ubatch).getD i {} = cells.getD i {} := by
  rw [List.getD_eq_getElem?_getD, List.getD_eq_getElem?_getD, getElem?_assignCells]
  split_ifs with early
  · rfl
  · have none : ubatch[i - first]? = none := List.getElem?_eq_none (by omega)
    rw [none]

theorem entries_slot (consistent : kv.cache.Consistent)
    (proper : ∀ column ∈ ubatch, column.Proper)
    (inside : first + ubatch.length ≤ kv.cache.size)
    (free : ∀ k < ubatch.length, (kv.cache.cellAt (first + k)).pos < 0)
    (rows : ∀ i < kv.cache.size, i < first ∨ first + ubatch.length ≤ i →
      after.rows i = kv.rows i)
    (size : after.cache.size = kv.cache.size)
    (cells : after.cache.cells = assignCells kv.cache.cells first ubatch) :
    after.entries = kv.entries + slotEntries kv.cache after.rows first ubatch := by
  have length := consistent.length
  have empty : ∀ k < ubatch.length, (kv.cache.cellAt (first + k)).seqId = ∅ := by
    intro k less
    have none := mt (taken_cellAt consistent (first + k)).mp (not_le.mpr (free k less))
    rwa [taken_iff, not_not] at none
  have content : ∀ i, after.contentAt i =
      ((assignCells kv.cache.cells first ubatch).getD i {}).entry (after.rows i) := by
    intro i
    rw [KvStore.contentAt, KvCache.cellAt, cells]
  have count : (slotEntries kv.cache after.rows first ubatch).length = ubatch.length :=
    List.length_mapIdx
  rw [KvStore.entries, KvStore.entries, size]
  refine @held_fill (Entry β) _ _ _ first _ (by rwa [count]) ?_ ?_ ?_
  · intro k less
    rw [count] at less
    exact entry_none (empty k less) _
  · intro k less
    rw [count] at less
    have column := List.getElem?_eq_getElem less
    have ids := assign_free (empty k less) ubatch[k]
    rw [content, cellAt_slot _ (by omega) _ column, KvCell.entry, if_neg, slotEntries,
      List.getElem?_mapIdx, column]
    · exact congrArg some (congrArg
        (fun seqId => ({ (ubatch[k].entry (kv.cache.cellAt (first + k)).delta
          (after.rows (first + k))) with seqId := seqId } : Entry β)) ids)
    · exact ids ▸ (proper _ (List.getElem_mem less)).full
  · intro i less outside
    rw [count] at outside
    rw [content, cellAt_outside _ outside, rows i less outside]
    rfl

theorem KvCache.Consistent.slot {kv : KvCache} (consistent : kv.Consistent)
    (proper : ∀ column ∈ ubatch, column.Proper) (inside : first + ubatch.length ≤ kv.size)
    (free : ∀ k < ubatch.length, (kv.cellAt (first + k)).pos < 0) :
    Consistent { kv with
      head := first
      cells := assignCells kv.cells first ubatch
      used := kv.used + ubatch.length } where
  length := by rw [length_assignCells, consistent.length]
  sane := by
    intro cell member
    obtain ⟨i, less, here⟩ := List.mem_iff_getElem.mp member
    have known : i < kv.cells.length := by rwa [length_assignCells] at less
    have size := consistent.length
    have before := consistent.sane _ (List.getElem_mem known)
    rw [← here, ← List.getD_eq_getElem _ {} less]
    by_cases slot : first ≤ i ∧ i < first + ubatch.length
    · obtain ⟨k, rfl⟩ := Nat.exists_eq_add_of_le slot.1
      have few : k < ubatch.length := by omega
      have ok := proper _ (List.getElem_mem few)
      rw [cellAt_slot _ known _ (List.getElem?_eq_getElem few)]
      refine Or.inr ⟨?_, ok.1⟩
      intro empty
      exact ok.full (Finset.union_eq_empty.mp empty).2
    · rw [cellAt_outside _ (by omega), List.getD_eq_getElem _ _ known]
      exact before
  used := by
    have held := @entries_slot Unit ⟨kv, false, false, fun _ => ()⟩
      ⟨{ kv with head := first, cells := assignCells kv.cells first ubatch }, false, false,
        fun _ => ()⟩ ubatch first consistent proper inside free (fun _ _ _ => rfl) rfl rfl
    have counted := congrArg Multiset.card held
    rw [Multiset.card_add, card_entries (by rw [length_assignCells, consistent.length]),
      card_entries consistent.length, Multiset.coe_card, slotEntries, List.length_mapIdx] at counted
    rw [counted, consistent.used]
  head := by
    dsimp only
    omega

/-- The search misses no slot, wherever it starts: there is none for a micro-batch exactly if
each block of that length has a cell that is taken. -/
theorem findSlot_complete {kv : KvCache} (consistent : kv.Consistent) (ubatch : List UToken) :
    (∃ after, kv.findSlot ubatch = some (.failed, after)) ↔
      ∀ first, first + ubatch.length ≤ kv.size →
        ∃ k < ubatch.length, (kv.cellAt (first + k)).Taken := by
  constructor
  · rintro ⟨after, answer⟩ first fits
    have inside := consistent.head
    rw [KvCache.findSlot, if_neg (by omega)] at answer
    cases searched : search (fun i => decide (0 ≤ (kv.cellAt i).pos)) kv.size ubatch.length
        (2 * kv.size + 2) kv.head 0 with
    | none => simp [searched] at answer
    | some outcome =>
        rw [searched] at answer
        cases outcome with
        | found head => simp at answer
        | failed stop =>
            rcases Nat.eq_zero_or_pos ubatch.length with empty | some
            · rw [empty, search_of_free (by omega) (by omega)] at searched
              simp at searched
            · obtain ⟨k, less, held⟩ := search_complete inside searched fits (by omega)
              exact ⟨k, less, (taken_cellAt consistent _).mpr (of_decide_eq_true held)⟩
  · intro none
    cases found : kv.findSlot ubatch with
    | none => exact absurd found (KvCache.findSlot_ends kv ubatch)
    | some answer =>
        obtain ⟨slot, after⟩ := answer
        cases slot with
        | failed => exact ⟨after, rfl⟩
        | slot first second =>
            obtain ⟨inside, free, ends, _⟩ := findSlot_slot found
            obtain ⟨k, less, held⟩ := none first inside
            have low := free (first + k) (by omega) (by omega)
            have high := (taken_cellAt consistent _).mp held
            omega

theorem findSlot_complete_two :
    ∃ after, KvCache.findSlot ⟨2, 3, 2, 0, [{ pos := 0, seqId := {0} }, {},
      { pos := 1, seqId := {0} }]⟩ [⟨5, 2, [0]⟩, ⟨6, 3, [0]⟩] = some (.failed, after) := by
  refine (findSlot_complete ⟨rfl, by simp [KvCell.Sane], by decide, by decide⟩ _).mpr ?_
  intro first fits
  have early : first = 0 ∨ first = 1 := by
    simp only [List.length_cons, List.length_nil] at fits
    omega
  rcases early with rfl | rfl
  · exact ⟨0, by decide, by decide⟩
  · exact ⟨1, by decide, by decide⟩

end SlotEntries

/-! ## Defragmenting -/

theorem find_last (p : Nat → Bool) : ∀ n,
    (match (List.range n).reverse.find? p with | some i => i + 1 | none => 0) ≤ n ∧
      ∀ i, (match (List.range n).reverse.find? p with | some i => i + 1 | none => 0) ≤ i →
        i < n → p i = false := by
  intro n
  induction n with
  | zero => exact ⟨Nat.zero_le 0, fun i _ less => absurd less (Nat.not_lt_zero i)⟩
  | succ n ih =>
      rw [List.range_succ, List.reverse_append, List.reverse_singleton, List.singleton_append,
        List.find?_cons]
      cases here : p n with
      | true =>
          exact ⟨Nat.le_refl _, fun i low less => absurd less (Nat.not_lt.mpr low)⟩
      | false =>
          refine ⟨Nat.le_succ_of_le ih.1, fun i low less => ?_⟩
          rcases Nat.lt_succ_iff_lt_or_eq.mp less with before | same
          · exact ih.2 i low before
          · rw [same, here]

section DefragPrepare

variable {kv : KvCache}

theorem cellMax_le (kv : KvCache) : kv.cellMax ≤ kv.size :=
  (find_last (fun i => 0 ≤ (kv.cellAt i).pos && !(kv.cellAt i).isEmpty) kv.size).1

theorem cellMax_beyond (consistent : kv.Consistent) {i : Nat} (beyond : kv.cellMax ≤ i) :
    ¬ (kv.cellAt i).Taken := by
  have length := consistent.length
  rcases Nat.lt_or_ge i kv.size with less | far
  · have free := (find_last (fun i => 0 ≤ (kv.cellAt i).pos && !(kv.cellAt i).isEmpty) kv.size).2 i
      beyond less
    intro held
    rw [(taken_cellAt consistent i).mp held |> decide_eq_true, held] at free
    simp at free
  · have default : kv.cellAt i = {} := List.getD_eq_default _ _ (by omega)
    rw [default]
    exact not_taken_empty

theorem count_cellMax (consistent : kv.Consistent) :
    Nat.count (fun i => (kv.cellAt i).Taken) kv.cellMax = kv.used := by
  rw [consistent.used, ← count_taken, consistent.length]
  exact (count_beyond (cellMax_le kv) fun i beyond => cellMax_beyond consistent beyond).symm

theorem defragMoves_spec (consistent : kv.Consistent) (maxMoves : Nat) :
    ∃ s front, kv.defragMoves maxMoves = some s ∧
      Defrag.Inv kv.cells kv.cellMax kv.used front s ∧
      (s.nMoves = maxMoves ∨ front = kv.used) ∧ (s.head = kv.head ∨ s.head = kv.used) := by
  have counted := count_cellMax consistent
  have fits : kv.used ≤ kv.cellMax := counted ▸ Nat.count_le _
  have unmoved : (fun i => (List.replicate kv.cellMax kv.cellMax).getD i kv.cellMax) =
      fun _ => kv.cellMax := by
    funext i
    rw [List.getD_eq_getElem?_getD, List.getElem?_replicate]
    split_ifs <;> rfl
  have start : Defrag.Inv kv.cells kv.cellMax kv.used 0
      { cells := kv.cells, ids := List.replicate kv.cellMax kv.cellMax, head := kv.head,
        nMoves := 0 } := by
    refine ⟨rfl, List.length_replicate, consistent.length ▸ cellMax_le kv, fun _ i => ?_,
      ⟨∅, Nat.le_refl 0, fun i starts => ?_⟩, ?_⟩
    · exact Or.inr (congrFun unmoved i)
    · have inside := starts.1.1
      rw [List.length_replicate] at inside
      refine absurd ?_ starts.1.2.2
      simp [inside]
    · dsimp only
      rw [unmoved]
      exact compacting_start _ (fun i beyond => cellMax_beyond consistent beyond) counted
  obtain ⟨s, front, run, inv, limit, heads⟩ :=
    @defragLoop_spec kv.cells kv.cellMax kv.used maxMoves (kv.used + 1) 0 _ start (by omega)
  refine ⟨s, front, ?_, inv, limit, heads⟩
  rw [KvCache.defragMoves, if_neg (not_lt.mpr fits), run]

theorem defragMoves_nMoves {maxMoves : Nat} (positive : 0 < maxMoves) {s : Defrag}
    (moves : kv.defragMoves maxMoves = some s) : s.nMoves ≤ maxMoves := by
  rw [KvCache.defragMoves] at moves
  split_ifs at moves
  exact defragLoop_nMoves _ _ _ _ positive moves

theorem Defrag.Inv.forall_cells {cells : List KvCell} {nKv nUsed front : Nat} {s : Defrag}
    (inv : Defrag.Inv cells nKv nUsed front s) {P : KvCell → Prop} (empty : P {})
    (all : ∀ cell ∈ cells, P cell) : ∀ cell ∈ s.cells, P cell := by
  intro cell member
  obtain ⟨i, less, here⟩ := List.mem_iff_getElem.mp member
  rw [← here, ← List.getD_eq_getElem _ {} less]
  rcases inv.compacting.origin i with free | ⟨k, same⟩
  · rw [free]
    exact empty
  · rw [same]
    rcases Nat.lt_or_ge k cells.length with known | beyond
    · rw [List.getD_eq_getElem _ _ known]
      exact all _ (List.getElem_mem known)
    · rw [List.getD_eq_default _ _ beyond]
      exact empty

theorem Defrag.Inv.consistent (consistent : kv.Consistent) {front : Nat} {s : Defrag}
    (inv : Defrag.Inv kv.cells kv.cellMax kv.used front s) (heads : s.head ≤ kv.size) :
    KvCache.Consistent { kv with cells := s.cells, head := s.head } where
  length := inv.length.trans consistent.length
  sane := inv.forall_cells (Or.inl ⟨rfl, rfl⟩) consistent.sane
  used := by
    have kept := inv.kept
    have length := inv.length
    have counted := inv.compacting.counted
    dsimp only
    rw [← count_taken, @count_beyond _ _ kv.cellMax _ (by omega), counted]
    intro i beyond
    obtain ⟨same, free⟩ := inv.compacting.beyond i beyond
    rw [same]
    exact free
  head := heads

theorem Defrag.Inv.entries {β : Type} {kv after : KvStore β} (consistent : kv.cache.Consistent)
    {front : Nat} {s : Defrag}
    (inv : Defrag.Inv kv.cache.cells kv.cache.cellMax kv.cache.used front s)
    (size : after.cache.size = kv.cache.size) (cells : after.cache.cells = s.cells)
    (rows : after.rows = if s.nMoves != 0 then applyCopies kv.rows (buildDefrag s.ids)
      else kv.rows) : after.entries = kv.entries := by
  have relocated := inv.compacting.relocated not_taken_empty
  have beyond : ∀ (other : KvStore β), other.cache.cells.length = other.cache.size →
      ∀ i, (other.contentAt i).isSome → i < other.cache.size := by
    intro other length i held
    by_contra far
    have default : other.cache.cellAt i = {} := List.getD_eq_default _ _ (by omega)
    rw [KvStore.contentAt, default] at held
    simp [entry_none] at held
  have at' : ∀ i, after.contentAt i = (s.cells.getD i {}).entry
      ((if s.nMoves != 0 then applyCopies kv.rows (buildDefrag s.ids) else kv.rows) i) := by
    intro i
    rw [KvStore.contentAt, KvCache.cellAt, cells, rows]
  have moved : Relocated (fun content : Option (Entry β) => content.isSome) kv.contentAt
      after.contentAt (place (fun i => s.ids.getD i kv.cache.cellMax) kv.cache.cellMax) := by
    refine ⟨fun i held => ?_, fun i j held held' same => ?_, fun j held => ?_⟩
    · have taken := (isSome_entry _ _).mp held
      rw [at', inv.rowsNow kv.rows taken, relocated.moved i taken]
      rfl
    · exact relocated.apart i j ((isSome_entry _ _).mp held) ((isSome_entry _ _).mp held') same
    · rw [at', isSome_entry] at held
      obtain ⟨i, taken, there⟩ := relocated.nothingElse j held
      exact ⟨i, (isSome_entry _ _).mpr taken, there⟩
  rw [KvStore.entries, KvStore.entries, size]
  refine held_relocated moved (beyond kv consistent.length) ?_
  rw [← size]
  exact beyond after (by rw [cells, size, inv.length, consistent.length])

/-- Defragmenting never fails: each cell that holds a token goes to a place of its own with
its row, no copy overlaps itself, the graph has nodes for all of them, and unless the number
of moves is used up the cells in use are then the first ones. -/
theorem defrag_compacts (consistent : kv.Consistent) {nMaxNodes nLayer : Nat} (layers : 0 < nLayer)
    (nodes : 8 * nLayer ≤ nMaxNodes) :
    ∃ s place, kv.defragMoves (defragMaxMoves nMaxNodes nLayer) = some s ∧
      Relocated KvCell.Taken kv.cellAt (fun i => s.cells.getD i {}) place ∧
      (∀ (β : Type) (rows : Nat → β) i, (kv.cellAt i).Taken →
        (if s.nMoves != 0 then applyCopies rows (buildDefrag s.ids) else rows) (place i) = rows i) ∧
      (∀ copy ∈ buildDefrag s.ids, copy.dst + copy.nm ≤ copy.src) ∧
      2 * nLayer + 6 * nLayer * (buildDefrag s.ids).length ≤ nMaxNodes ∧
      (s.nMoves < defragMaxMoves nMaxNodes nLayer →
        ∀ i, KvCell.Taken (s.cells.getD i {}) ↔ i < kv.used) := by
  obtain ⟨s, front, run, inv, limit, _⟩ := defragMoves_spec consistent
    (defragMaxMoves nMaxNodes nLayer)
  have positive : 0 < defragMaxMoves nMaxNodes nLayer :=
    Nat.div_pos (by omega) (by omega)
  refine ⟨s, _, run, inv.compacting.relocated not_taken_empty,
    fun β rows i held => inv.rowsNow rows held, fun copy member => ?_, ?_, fun few i => ?_⟩
  · obtain ⟨all, _⟩ := copyLoop_starts inv.backward s.ids.length 0 (by omega)
      (fun j next => by omega)
    obtain ⟨_, _, low, high, _⟩ := all copy member
    omega
  · have copies := inv.budget.copies inv.backward
    have most := defragMoves_nMoves positive run
    calc 2 * nLayer + 6 * nLayer * (buildDefrag s.ids).length
        ≤ 2 * nLayer + 6 * nLayer * defragMaxMoves nMaxNodes nLayer :=
          Nat.add_le_add_left (Nat.mul_le_mul_left _ (Nat.le_trans copies most)) _
      _ ≤ 2 * nLayer + (nMaxNodes - 2 * nLayer) :=
          Nat.add_le_add_left (Nat.mul_div_le _ _) _
      _ = nMaxNodes := by omega
  · rcases limit with reached | ends
    · omega
    · exact (ends ▸ inv.compacting).ends i

/-- A hole behind the first cell. -/
theorem defrag_compacts_hole :
    let cells : List KvCell :=
      [{ pos := 0, seqId := {0} }, {}, { pos := 2, seqId := {0} }, { pos := 3, seqId := {0} }]
    ∃ s place, KvCache.defragMoves ⟨0, 4, 3, 0, cells⟩ (defragMaxMoves 64 1) = some s ∧
      Relocated KvCell.Taken (KvCache.cellAt ⟨0, 4, 3, 0, cells⟩) (fun i => s.cells.getD i {})
        place := by
  have consistent : KvCache.Consistent ⟨0, 4, 3, 0,
      [{ pos := 0, seqId := {0} }, {}, { pos := 2, seqId := {0} }, { pos := 3, seqId := {0} }]⟩ :=
    ⟨rfl, by simp [KvCell.Sane], by decide, by decide⟩
  obtain ⟨s, place, run, relocated, _⟩ :=
    @defrag_compacts _ consistent 64 1 (by decide) (by decide)
  exact ⟨s, place, run, relocated⟩

end DefragPrepare

end MineGPT.Kv
