import Mathlib.Data.Finset.Card
import MineGPT.Kv.StateRead

/-!
# The round trip of the cache

A cache that was saved, whole or one sequence of it, is restored into another one:
what that holds afterwards is what it held otherwise and the entries that were saved.
-/

set_option autoImplicit false

namespace MineGPT.Kv

open MineGPT.Lib MineGPT.Lib.ByteString MineGPT.Lib.Reader MineGPT.Lib.Memory
open MineGPT.Lib.Places

/-! ## The cells -/

structure KvCell.Storable (cell : KvCell) : Prop where
  pos : Int32 cell.pos
  seqId : ∀ seqId ∈ cell.seqId, 0 ≤ seqId ∧ seqId < 2 ^ 31

theorem KvCell.Storable.card {cell : KvCell} (storable : cell.Storable) :
    cell.seqId.card < 256 ^ 4 := by
  have few : cell.seqId.card ≤ (Finset.range (2 ^ 31)).card := by
    apply Finset.card_le_card_of_injOn Int.toNat
    · intro seqId member
      obtain ⟨low, high⟩ := storable.seqId seqId member
      rw [Finset.coe_range, Set.mem_Iio]
      omega
    · intro seqId member other member' same
      have low := (storable.seqId seqId member).1
      have low' := (storable.seqId other member').1
      omega
  rw [Finset.card_range] at few
  omega

/-- What is restored for a cell of the whole cache. -/
def KvCell.whole (cell : KvCell) : UToken :=
  { token := 0, pos := cell.pos, seqId := cell.sortedIds }

/-- What is restored for a cell of a sequence. -/
def KvCell.renamed (destSeqId : Int) (cell : KvCell) : UToken :=
  { token := 0, pos := cell.pos, seqId := [destSeqId] }

theorem length_sortedIds (cell : KvCell) : cell.sortedIds.length = cell.seqId.card :=
  Finset.length_sort _

theorem mem_sortedIds {cell : KvCell} {seqId : Int} :
    seqId ∈ cell.sortedIds ↔ seqId ∈ cell.seqId :=
  Finset.mem_sort _

theorem writeCell_whole (cell : KvCell) :
    writeCell cell (-1) = writeInt32 cell.pos ++ leBytes 4 cell.sortedIds.length ++
      cell.sortedIds.flatMap writeInt32 := by
  rw [writeCell, if_pos rfl, ← length_sortedIds]
  split_ifs with some
  · rfl
  · rw [List.length_eq_zero_iff.mp (not_not.mp some)]
    rfl

theorem writeCell_single (cell : KvCell) {seqId : Int} (single : seqId ≠ -1) :
    writeCell cell seqId = writeInt32 cell.pos ++ leBytes 4 0 := by
  rw [writeCell, if_neg single, if_neg (not_not.mpr rfl), List.append_nil]

theorem yields_readSeqIds : ∀ (seqIds : List Int) (_ : ∀ seqId ∈ seqIds, 0 ≤ seqId ∧ seqId < 2 ^ 31)
    (rest : Bytes),
    Yields (readSeqIds seqIds.length) (seqIds.flatMap writeInt32 ++ rest) (true, seqIds) rest := by
  intro seqIds
  induction seqIds with
  | nil => exact fun _ _ => yields_pure.mpr ⟨rfl, rfl⟩
  | cons seqId later ih =>
      intro fits rest
      obtain ⟨low, high⟩ := fits seqId (by simp)
      rw [List.flatMap_cons, List.append_assoc, List.length_cons]
      refine (yields_int32 ⟨by omega, high⟩ _).bind ?_
      rw [if_neg (by omega)]
      exact (ih (fun other member => fits other (by simp [member])) rest).bind
        (yields_pure.mpr ⟨rfl, rfl⟩)

theorem yields_readCells : ∀ (cells : List KvCell) (_ : ∀ cell ∈ cells, cell.Storable) (i : Nat)
    (kv : KvCache) (rest : Bytes),
    Yields (readCells cells.length i kv)
      (cells.flatMap (fun cell => writeCell cell (-1)) ++ rest)
      (true, { kv with cells := assignCells kv.cells i (cells.map KvCell.whole) }) rest := by
  intro cells
  induction cells with
  | nil => exact fun _ _ _ _ => yields_pure.mpr ⟨rfl, rfl⟩
  | cons cell later ih =>
      intro storable i kv rest
      have fits := storable cell (by simp)
      have ids := yields_readSeqIds cell.sortedIds (fun seqId member =>
        fits.seqId seqId (mem_sortedIds.mp member))
      rw [List.flatMap_cons, writeCell_whole, List.append_assoc, List.append_assoc,
        List.append_assoc]
      refine (yields_int32 fits.pos _).bind ((yields_uint ?_ _).bind ((ids _).bind ?_))
      · rw [length_sortedIds]
        exact fits.card
      · exact ih (fun other member => storable other (by simp [member])) (i + 1) _ rest

theorem yields_readPositions {seqId : Int} (single : seqId ≠ -1) : ∀ (cells : List KvCell)
    (_ : ∀ cell ∈ cells, cell.Storable) (rest : Bytes),
    Yields (readPositions cells.length) (cells.flatMap (fun cell => writeCell cell seqId) ++ rest)
      (some (cells.map KvCell.pos)) rest := by
  intro cells
  induction cells with
  | nil => exact fun _ _ => yields_pure.mpr ⟨rfl, rfl⟩
  | cons cell later ih =>
      intro storable rest
      rw [List.flatMap_cons, writeCell_single cell single, List.append_assoc, List.append_assoc]
      refine (yields_int32 (storable cell (by simp)).pos _).bind ((yields_uint (by decide) _).bind ?_)
      rw [if_neg (not_not.mpr rfl)]
      exact (ih (fun other member => storable other (by simp [member])) rest).bind
        (yields_pure.mpr ⟨rfl, rfl⟩)

theorem yields_metaWhole {cells : List KvCell} (storable : ∀ cell ∈ cells, cell.Storable)
    {kv : KvCache} (enough : cells.length ≤ kv.size) (rest : Bytes) :
    Yields (stateReadMeta kv cells.length (-1))
      (cells.flatMap (fun cell => writeCell cell (-1)) ++ rest)
      (true, { kv.clear with
        head := 0
        cells := assignCells kv.clear.cells 0 (cells.map KvCell.whole)
        used := cells.length }, true) rest := by
  rw [stateReadMeta, if_neg (not_not.mpr rfl), if_neg (by omega)]
  exact (yields_readCells cells storable 0 kv.clear rest).bind (yields_pure.mpr ⟨rfl, rfl⟩)

theorem slot_checked {destSeqId : Int} {cells : List KvCell} (some' : cells ≠ [])
    {kv after : KvCache} (length : kv.cells.length = kv.size) {first second : Nat}
    (found : kv.findSlot (cells.map (KvCell.renamed destSeqId)) =
      some (.slot first second, after)) :
    after.head + cells.length ≤ after.size ∧
      (after.cellAt after.head).pos = (cells.map KvCell.pos).headD 0 ∧
      (after.cellAt (after.head + cells.length - 1)).pos = (cells.map KvCell.pos).getLastD 0 ∧
      (after.cellAt after.head).hasSeqId destSeqId ∧
      (after.cellAt (after.head + cells.length - 1)).hasSeqId destSeqId := by
  obtain ⟨inside, _, _, rfl⟩ := findSlot_slot found
  rw [List.length_map] at inside
  have positive : 0 < cells.length := List.length_pos_iff.mpr some'
  have cell : ∀ k (known : k < cells.length),
      (assignCells kv.cells first (cells.map (KvCell.renamed destSeqId))).getD (first + k) {} =
        (kv.cellAt (first + k)).assign (KvCell.renamed destSeqId cells[k]) := by
    intro k known
    have column : (cells.map (KvCell.renamed destSeqId))[k]? =
        some (KvCell.renamed destSeqId cells[k]) := by
      rw [List.getElem?_map, List.getElem?_eq_getElem known]
      rfl
    exact cellAt_slot kv.cells (by omega) _ column
  have front := cell 0 positive
  have back := cell (cells.length - 1) (by omega)
  rw [Nat.add_zero] at front
  rw [← Nat.add_sub_assoc (Nat.succ_le_of_lt positive)] at back
  have has : ∀ before cell : KvCell,
      (before.assign (KvCell.renamed destSeqId cell)).hasSeqId destSeqId = true := by
    intro before cell
    simp [KvCell.hasSeqId, KvCell.assign, KvCell.renamed]
  dsimp only [KvCache.cellAt]
  refine ⟨inside, ?_, ?_, ?_, ?_⟩
  · rw [front]
    cases cells with
    | nil => exact absurd rfl some'
    | cons cell rest => rfl
  · rw [back, List.getLastD_eq_getLast?, List.getLast?_map, List.getLast?_eq_getElem?,
      List.getElem?_eq_getElem (by omega)]
    rfl
  · rw [front]
    exact has _ _
  · rw [back]
    exact has _ _

theorem yields_metaSingle {seqId destSeqId : Int} (single : seqId ≠ -1) (dest : destSeqId ≠ -1)
    {cells : List KvCell} (storable : ∀ cell ∈ cells, cell.Storable) (some' : cells ≠ [])
    {kv after : KvCache} (length : kv.cells.length = kv.size) {slot : SlotInfo}
    (found : (kv.seqRm destSeqId (-1) (-1)).findSlot (cells.map (KvCell.renamed destSeqId)) =
      some (slot, after)) (rest : Bytes) :
    Yields (stateReadMeta kv cells.length destSeqId)
      (cells.flatMap (fun cell => writeCell cell seqId) ++ rest)
      (decide (slot ≠ .failed), after, false) rest := by
  have columns : (cells.map KvCell.pos).map (fun pos => (⟨0, pos, [destSeqId]⟩ : UToken)) =
      cells.map (KvCell.renamed destSeqId) := by
    rw [List.map_map]
    rfl
  have size : (kv.seqRm destSeqId (-1) (-1)).cells.length =
      (kv.seqRm destSeqId (-1) (-1)).size := by
    rw [KvCache.seqRm, List.length_map]
    exact length
  rw [stateReadMeta, if_pos dest]
  refine (yields_readPositions single cells storable rest).bind ?_
  dsimp only
  rw [if_neg (by simpa using some'), columns, found]
  cases slot with
  | failed => exact yields_pure.mpr ⟨rfl, rfl⟩
  | slot first second =>
      dsimp only
      rw [if_pos (slot_checked some' size found)]
      exact yields_pure.mpr ⟨rfl, rfl⟩

/-! ## What is restored -/

/-- The cache with what its tensors hold for each cell; nothing is pending. -/
def stored (shape : KvShape) (kv : KvCache) (tensors : KvTensors) :
    KvStore (List (Bytes × List Bytes)) :=
  { cache := kv, hasShift := false, doDefrag := false, rows := rowOf shape kv.size tensors }

def savedCells (kv : KvCache) (seqId : Int) : List Nat :=
  (List.range kv.size).filter (kv.saved seqId)

theorem stateWrite_eq (shape : KvShape) (kv : KvCache) (tensors : KvTensors) (seqId : Int) :
    ∃ ranges, rangeCells ranges = savedCells kv seqId ∧
      stateWrite shape kv tensors seqId =
        (stateWriteData shape kv tensors ranges).map fun data =>
          leBytes 4 (rangeCells ranges).length ++
            ((rangeCells ranges).map kv.cellAt).flatMap (fun cell => writeCell cell seqId) ++
            data := by
  obtain ⟨count, cells⟩ := cellRanges_spec kv.size (kv.saved seqId)
  have same : (cellRanges kv.size (kv.saved seqId)).1 =
      (rangeCells (cellRanges kv.size (kv.saved seqId)).2).length := by rw [count, cells]
  refine ⟨_, cells, ?_⟩
  rw [stateWrite]
  dsimp only
  rw [if_neg (not_not.mpr (same.trans (length_rangeCells _))), stateWriteMeta, forRanges_eq, same,
    List.flatMap_map]

def KvCache.filled (kv : KvCache) (first : Nat) (columns : List UToken) : KvCache :=
  { kv with
    head := first
    cells := assignCells kv.cells first columns
    used := kv.used + columns.length }

section Block

variable {shape : KvShape} {kv base : KvCache} {tensors target : KvTensors} {cells : List Nat}
  {column : KvCell → UToken} {first : Nat}

theorem block_restored (good : (stored shape base target).Consistent)
    (proper : ∀ col ∈ cells.map fun i => column (kv.cellAt i), col.Proper)
    (inside : first + cells.length ≤ base.size)
    (free : ∀ k < cells.length, (base.cellAt (first + k)).pos < 0)
    (counted : shape.Counted base.size) :
    let after := stored shape (base.filled first (cells.map fun i => column (kv.cellAt i)))
      (restored shape first base.size kv.size tensors cells target)
    after.Consistent ∧ after.entries = (stored shape base target).entries + (cells.map fun i =>
      (column (kv.cellAt i)).entry 0 (rowOf shape kv.size tensors i) : List (Entry _)) := by
  intro after
  have count : (cells.map fun i => column (kv.cellAt i)).length = cells.length := List.length_map _
  have free' : ∀ k < (cells.map fun i => column (kv.cellAt i)).length,
      (base.cellAt (first + k)).pos < 0 := by rwa [count]
  have inside' : first + (cells.map fun i => column (kv.cellAt i)).length ≤ base.size := by
    rwa [count]
  have still : ∀ cell ∈ base.cells, cell.delta = 0 := good.settled rfl
  have rows : ∀ i < base.size, after.rows i = if first ≤ i ∧ i < first + cells.length then
      rowOf shape kv.size tensors (cells.getD (i - first) 0) else rowOf shape base.size target i :=
    fun i less => rowOf_restored tensors target inside
      (fun _ layer member => (counted layer member).2.le) less
  refine ⟨⟨good.cache.slot proper inside' free', fun _ =>
    forall_assignCells _ _ _ (fun _ _ zero => zero) still⟩, ?_⟩
  have entries := @entries_slot _ (stored shape base target) after _ first good.cache proper inside'
    free' (fun i less outside => by rw [rows i less, if_neg (by omega)]; rfl) rfl rfl
  rw [entries]
  congr 2
  apply List.ext_getElem
  · simp [slotEntries]
  · intro k less less'
    have known : k < cells.length := by simpa using less'
    have delta : (base.cellAt (first + k)).delta = 0 := by
      have length : base.cells.length = base.size := good.cache.length
      rw [KvCache.cellAt_of_lt (by omega)]
      exact still _ (List.getElem_mem _)
    have row : after.rows (first + k) = rowOf shape kv.size tensors cells[k] := by
      rw [rows _ (by omega), if_pos (by omega), Nat.add_sub_cancel_left,
        List.getD_eq_getElem _ _ known]
    simp [slotEntries, delta, row, stored]

end Block

theorem held_saved {β : Type} (kv : KvStore β) {seqId : Int} {column : KvCell → UToken}
    {change : Entry β → Option (Entry β)}
    (same : ∀ i, (kv.contentAt i).bind change = if kv.cache.saved seqId i then
      some ((column (kv.cache.cellAt i)).entry 0 (kv.rows i)) else none) :
    kv.entries.filterMap change = ((savedCells kv.cache seqId).map fun i =>
      (column (kv.cache.cellAt i)).entry 0 (kv.rows i) : List (Entry β)) := by
  rw [KvStore.entries, ← held_bind, savedCells, ← held_filter]
  exact held_congr fun i _ => same i

section RoundTrip

variable {shape : KvShape} (storable : shape.Storable) {kv target : KvCache}
  {tensors targetTensors : KvTensors} (good : (stored shape kv tensors).Consistent)
  (good' : (stored shape target targetTensors).Consistent)
  (cells : ∀ cell ∈ kv.cells, cell.Storable)
  (addressable : shape.Addressable kv.size) (counted : shape.Counted target.size)

theorem whole_entry {cell : KvCell} {β : Type} (row : β) (still : cell.delta = 0) :
    cell.whole.entry 0 row = cell.toEntry row := by
  rw [UToken.entry, KvCell.toEntry, still]
  congr 1
  exact Finset.sort_toFinset _ _

theorem sane_cellAt {kv : KvCache} (consistent : kv.Consistent) (i : Nat) : (kv.cellAt i).Sane := by
  rcases Nat.lt_or_ge i kv.cells.length with less | beyond
  · rw [KvCache.cellAt_of_lt less]
    exact consistent.sane _ (List.getElem_mem less)
  · rw [KvCache.cellAt, List.getD_eq_default _ _ beyond]
    exact Or.inl ⟨rfl, rfl⟩

theorem still_cellAt {kv : KvCache} (still : ∀ cell ∈ kv.cells, cell.delta = 0) (i : Nat) :
    (kv.cellAt i).delta = 0 := by
  rcases Nat.lt_or_ge i kv.cells.length with less | beyond
  · rw [KvCache.cellAt_of_lt less]
    exact still _ (List.getElem_mem less)
  · rw [KvCache.cellAt, List.getD_eq_default _ _ beyond]

theorem saved_whole (cell : KvCell) :
    ((-1 : Int) == -1 && !cell.isEmpty || cell.hasSeqId (-1)) = !cell.isEmpty := by
  by_cases empty : cell.seqId = ∅
  · simp [KvCell.isEmpty, KvCell.hasSeqId, empty]
  · simp [KvCell.isEmpty, empty]

include good in
theorem entries_whole : (stored shape kv tensors).entries =
    ((savedCells kv (-1)).map fun i =>
      (kv.cellAt i).whole.entry 0 (rowOf shape kv.size tensors i) : List (Entry _)) := by
  have saved := @held_saved _ (stored shape kv tensors) (-1) KvCell.whole some fun i => by
    rw [Option.bind_fun_some, KvStore.contentAt, KvCell.entry, KvCache.saved, saved_whole,
      whole_entry _ (still_cellAt (good.settled rfl) i)]
    by_cases empty : ((stored shape kv tensors).cache.cellAt i).seqId = ∅
    · rw [if_pos empty, if_neg (by simp [KvCell.isEmpty, empty])]
    · rw [if_neg empty, if_pos (by simp [KvCell.isEmpty, empty])]
  rw [← Multiset.filterMap_some (stored shape kv tensors).entries]
  exact saved

theorem bound_savedCells {kv : KvCache} {seqId : Int} {i : Nat} (member : i ∈ savedCells kv seqId) :
    i < kv.size :=
  List.mem_range.mp (List.mem_filter.mp member).1

theorem full_savedCells {kv : KvCache} {seqId : Int} {i : Nat} (member : i ∈ savedCells kv seqId) :
    (kv.cellAt i).seqId ≠ ∅ := by
  have saved := (List.mem_filter.mp member).2
  intro empty
  simp [KvCache.saved, KvCell.isEmpty, KvCell.hasSeqId, empty] at saved

theorem pos_savedCells {kv : KvCache} (consistent : kv.Consistent) {seqId : Int} {i : Nat}
    (member : i ∈ savedCells kv seqId) : 0 ≤ (kv.cellAt i).pos := by
  rcases sane_cellAt consistent i with free | taken
  · exact absurd free.1 (full_savedCells member)
  · exact taken.2

include cells in
theorem storable_savedCells (length : kv.cells.length = kv.size) (seqId : Int) :
    ∀ cell ∈ (savedCells kv seqId).map kv.cellAt, cell.Storable := by
  intro cell member
  obtain ⟨i, known, rfl⟩ := List.mem_map.mp member
  have less := bound_savedCells known
  rw [KvCache.cellAt_of_lt (by omega)]
  exact cells _ (List.getElem_mem _)

include storable good cells addressable in
theorem written_cells (seqId : Int) : ∃ ranges data, rangeCells ranges = savedCells kv seqId ∧
    (∀ i ∈ rangeCells ranges, i < kv.size) ∧
    (∀ cell ∈ (rangeCells ranges).map kv.cellAt, cell.Storable) ∧
    (rangeCells ranges).length < 256 ^ 4 ∧
    stateWriteData shape kv tensors ranges = some data ∧
    stateWrite shape kv tensors seqId =
      some (leBytes 4 (rangeCells ranges).length ++
        ((rangeCells ranges).map kv.cellAt).flatMap (fun cell => writeCell cell seqId) ++ data) := by
  obtain ⟨ranges, ranged, written⟩ := stateWrite_eq shape kv tensors seqId
  have bound : ∀ i ∈ rangeCells ranges, i < kv.size := by
    rw [ranged]
    exact fun i member => bound_savedCells member
  obtain ⟨data, writtenData⟩ := stateWriteData_some storable addressable bound tensors
  rw [writtenData, Option.map_some] at written
  have less := addressable.cells
  have most : (savedCells kv seqId).length ≤ kv.size := by
    simpa [savedCells] using List.length_filter_le (kv.saved seqId) (List.range kv.size)
  refine ⟨ranges, data, ranged, bound, ?_, ?_, writtenData, written⟩
  · rw [ranged]
    exact storable_savedCells cells good.cache.length seqId
  · rw [ranged]
    omega

theorem cellAt_clear (kv : KvCache) (i : Nat) : (kv.clear.cellAt i).pos = -1 := by
  rw [KvCache.cellAt, KvCache.clear, List.getD_eq_getElem?_getD, List.getElem?_map]
  cases kv.cells[i]? <;> rfl

theorem taken_filled_clear {kv : KvCache} {columns : List UToken} (consistent : kv.Consistent)
    (proper : ∀ column ∈ columns, column.Proper) (inside : columns.length ≤ kv.size) (i : Nat) :
    ((kv.clear.filled 0 columns).cellAt i).Taken ↔ i < columns.length := by
  have length : kv.clear.cells.length = kv.size := consistent.clear.length
  have filled : (kv.clear.filled 0 columns).Consistent :=
    consistent.clear.slot proper (by rw [Nat.zero_add]; exact inside)
      (fun k _ => by rw [cellAt_clear]; decide)
  rw [taken_cellAt filled i, KvCache.cellAt, KvCache.filled]
  dsimp only
  rcases Nat.lt_or_ge i columns.length with less | beyond
  · have here := @cellAt_slot columns 0 kv.clear.cells i (by omega) columns[i]
      (List.getElem?_eq_getElem less)
    rw [Nat.zero_add] at here
    rw [here]
    exact iff_of_true (proper _ (List.getElem_mem less)).1 less
  · have here := @cellAt_outside columns 0 kv.clear.cells i (Or.inr (by omega))
    have free := cellAt_clear kv i
    rw [KvCache.cellAt] at free
    rw [here, free]
    exact iff_of_false (by decide) (by omega)

/-- One layer with transposed values of two elements. -/
def oneLayer : KvShape :=
  { layers := [⟨⟨1, 2, 1, 2⟩, ⟨1, 2, 1, 2⟩⟩], vTrans := true }

/-- Two sequences share the last token. -/
def twoSequences : KvCache :=
  { head := 0, size := 3, used := 2, n := 0
    cells := [{ pos := 0, seqId := {0} }, {}, { pos := 1, seqId := {0, 1} }] }

theorem oneLayer_storable : oneLayer.Storable := by
  have fits : (⟨1, 2, 1, 2⟩ : KvTensorType).Fits :=
    ⟨⟨by decide, by decide⟩, by decide, by decide, by decide⟩
  refine ⟨by decide, fun layer member => ?_, fun layer member => ?_, fun _ layer member => ?_⟩
  all_goals obtain rfl := List.mem_singleton.mp member
  · exact fits
  · exact fits
  · rfl

theorem oneLayer_counted {size : Nat} (small : size < 2 ^ 30) : oneLayer.Counted size := by
  intro layer member
  obtain rfl := List.mem_singleton.mp member
  dsimp only
  omega

theorem oneLayer_addressable {size : Nat} (small : size < 2 ^ 30) : oneLayer.Addressable size := by
  have counted := oneLayer_counted small
  refine ⟨by omega, counted, fun _ layer member => ?_⟩
  rw [KvTensorType.nbytes_of_blckSize (counted layer member).2
    (oneLayer_storable.single rfl layer member)]
  obtain rfl := List.mem_singleton.mp member
  dsimp only
  omega

theorem twoSequences_good (tensors : KvTensors) :
    (stored oneLayer twoSequences tensors).Consistent :=
  ⟨⟨rfl, by simp [stored, twoSequences, KvCell.Sane], rfl, Nat.zero_le _⟩,
    by simp [stored, twoSequences]⟩

theorem twoSequences_storable : ∀ cell ∈ twoSequences.cells, cell.Storable := by
  intro cell member
  simp only [twoSequences, List.mem_cons, List.not_mem_nil, or_false] at member
  rcases member with rfl | rfl | rfl
  all_goals exact ⟨⟨by decide, by decide⟩, by decide⟩

theorem init_good (shape : KvShape) (size : Nat) (tensors : KvTensors) :
    (stored shape (KvCache.init size) tensors).Consistent :=
  have good := (@good_init Unit () ⟨true, true, 1, 1⟩ size).consistent
  ⟨good.cache, fun _ => good.settled rfl⟩

include storable good good' cells addressable counted in
/-- A cache that is written as a whole is read into any cache that is large enough: its cells
are then the first ones, each with its position, its sequences and its row. -/
theorem state_round_trip (enough : kv.used ≤ target.size) (rest : Bytes) :
    ∃ bytes next nextTensors, stateWrite shape kv tensors (-1) = some bytes ∧
      Yields (stateRead shape target targetTensors (-1)) (bytes ++ rest)
        (true, next, nextTensors) rest ∧
      (stored shape next nextTensors).Consistent ∧
      (stored shape next nextTensors).entries = (stored shape kv tensors).entries ∧
      ∀ i, (next.cellAt i).Taken ↔ i < kv.used := by
  obtain ⟨ranges, data, ranged, bound, fits, small, writtenData, written⟩ :=
    written_cells storable good cells addressable (-1)
  have whole := entries_whole good
  have length : (rangeCells ranges).length = kv.used := by
    have used : kv.used = _ := good.cache.used_eq
    rw [used, whole, Multiset.coe_card, List.length_map, ranged]
  have inside : 0 + (rangeCells ranges).length ≤ target.size := by
    rw [Nat.zero_add, length]
    exact enough
  have cleared : (stored shape target.clear KvTensors.cleared).Consistent :=
    ⟨good'.cache.clear, (good'.onCache good'.cache.clear rfl fun _ => rfl).settled⟩
  have proper : ∀ col ∈ (rangeCells ranges).map fun i => (kv.cellAt i).whole, col.Proper := by
    intro col member
    obtain ⟨i, known, rfl⟩ := List.mem_map.mp member
    rw [ranged] at known
    refine ⟨pos_savedCells good.cache known, fun none => full_savedCells known ?_⟩
    rw [← Finset.card_eq_zero, ← length_sortedIds]
    exact congrArg List.length none
  obtain ⟨consistent, entries⟩ := @block_restored shape kv target.clear tensors KvTensors.cleared
    (rangeCells ranges) KvCell.whole 0 cleared proper inside (fun k _ => by rw [cellAt_clear]; decide)
    counted
  refine ⟨_, target.clear.filled 0 ((rangeCells ranges).map fun i => (kv.cellAt i).whole),
    restored shape 0 target.size kv.size tensors (rangeCells ranges) KvTensors.cleared, written, ?_,
    consistent, ?_, fun i => ?_⟩
  · have read := @yields_metaWhole ((rangeCells ranges).map kv.cellAt) fits target
      (by rw [List.length_map, length]; exact enough)
      (data ++ rest)
    have same : target.clear.filled 0 ((rangeCells ranges).map fun i => (kv.cellAt i).whole) =
        { target.clear with
          head := 0
          cells := assignCells target.clear.cells 0
            (((rangeCells ranges).map kv.cellAt).map KvCell.whole)
          used := ((rangeCells ranges).map kv.cellAt).length } := by
      simp [KvCache.filled, KvCache.clear, Function.comp_def]
    rw [← same, List.length_map] at read
    rw [List.append_assoc, List.append_assoc]
    refine (yields_uint small _).bind (read.bind ?_)
    dsimp only
    rw [if_pos rfl, if_pos rfl]
    exact (yields_readData storable addressable bound tensors writtenData counted inside
      KvTensors.cleared rest).bind (yields_pure.mpr ⟨rfl, rfl⟩)
  · rw [whole, ← ranged]
    refine entries.trans ?_
    rw [entries_clear rfl, Multiset.zero_add]
  · have count : ((rangeCells ranges).map fun i => (kv.cellAt i).whole).length = kv.used := by
      rw [List.length_map, length]
    have first := @taken_filled_clear target (rangeCells ranges |>.map fun i => (kv.cellAt i).whole)
      good'.cache proper (by rw [count]; exact enough) i
    rwa [count] at first

theorem state_round_trip_two :
    ∃ bytes next nextTensors,
      stateWrite oneLayer twoSequences ⟨fun _ i => .ofNat i, fun _ i => .ofNat (2 * i)⟩ (-1) =
        some bytes ∧
      Yields (stateRead oneLayer (KvCache.init 2) KvTensors.cleared (-1)) (bytes ++ [])
        (true, next, nextTensors) [] ∧
      (stored oneLayer next nextTensors).entries = (stored oneLayer twoSequences
        ⟨fun _ i => .ofNat i, fun _ i => .ofNat (2 * i)⟩).entries := by
  obtain ⟨bytes, next, nextTensors, written, read, _, entries, _⟩ :=
    state_round_trip oneLayer_storable (twoSequences_good _)
      (init_good oneLayer 2 KvTensors.cleared) twoSequences_storable
      (oneLayer_addressable (by decide)) (oneLayer_counted (by decide)) (by decide) []
  exact ⟨bytes, next, nextTensors, written, read, entries⟩

/-- What a sequence is when it is restored as another one. -/
def Entry.sequence {β : Type} (seqId destSeqId : Int) (e : Entry β) : Option (Entry β) :=
  if seqId ∈ e.seqId then some { e with seqId := {destSeqId} } else none

theorem saved_single {seqId : Int} (single : seqId ≠ -1) (kv : KvCache) (i : Nat) :
    kv.saved seqId i = true ↔ seqId ∈ (kv.cellAt i).seqId := by
  simp [KvCache.saved, KvCell.hasSeqId, single]

include good in
theorem entries_single {seqId : Int} (single : seqId ≠ -1) (destSeqId : Int) :
    (stored shape kv tensors).entries.filterMap (Entry.sequence seqId destSeqId) =
      ((savedCells kv seqId).map fun i => ((kv.cellAt i).renamed destSeqId).entry 0
        (rowOf shape kv.size tensors i) : List (Entry _)) := by
  refine @held_saved _ (stored shape kv tensors) seqId (KvCell.renamed destSeqId) _ fun i => ?_
  change ((kv.cellAt i).entry (rowOf shape kv.size tensors i)).bind _ =
    if kv.saved seqId i then
      some (((kv.cellAt i).renamed destSeqId).entry 0 (rowOf shape kv.size tensors i))
    else none
  have still : (kv.cellAt i).delta = 0 := still_cellAt (good.settled rfl) i
  by_cases member : seqId ∈ (kv.cellAt i).seqId
  · rw [if_pos ((saved_single single kv i).mpr member),
      entry_some (Finset.ne_empty_of_mem member), Option.bind_some, Entry.sequence,
      if_pos (by exact member)]
    simp [KvCell.toEntry, UToken.entry, KvCell.renamed, still]
  · rw [if_neg (mt (saved_single single kv i).mp member)]
    by_cases empty : (kv.cellAt i).seqId = ∅
    · rw [entry_none empty]
      rfl
    · rw [entry_some empty, Option.bind_some, Entry.sequence, if_neg (by exact member)]

theorem remove_remove {β : Type} {seqId p0 p1 : Int} (single : 0 ≤ seqId) (e : Entry β) :
    (e.remove seqId p0 p1).bind (Entry.remove seqId p0 p1) = e.remove seqId p0 p1 := by
  by_cases range : p0 ≤ e.pos ∧ e.pos < p1
  · by_cases last : e.seqId.erase seqId = ∅
    · simp [Entry.remove, range, Int.not_lt.mpr single, last]
    · simp [Entry.remove, range, Int.not_lt.mpr single, last, Finset.erase_eq_of_notMem]
  · simp [Entry.remove, range]


include good' in
theorem entries_removed_again {destSeqId : Int} (dest : 0 ≤ destSeqId) {head : Nat}
    (moved : KvCache.Consistent { target.seqRm destSeqId (-1) (-1) with head := head }) :
    (stored shape (KvCache.seqRm { target.seqRm destSeqId (-1) (-1) with head := head }
      destSeqId (-1) (-1)) targetTensors).entries =
      (stored shape target targetTensors).entries.filterMap
        (Entry.remove destSeqId 0 0x7fffffff) := by
  let after := { target.seqRm destSeqId (-1) (-1) with head := head }
  calc (stored shape (after.seqRm destSeqId (-1) (-1)) targetTensors).entries
      = (stored shape after targetTensors).entries.filterMap
          (Entry.remove destSeqId 0 0x7fffffff) :=
        @entries_seqRm _ (stored shape after targetTensors) moved destSeqId (-1) (-1)
    _ = ((stored shape target targetTensors).entries.filterMap
          (Entry.remove destSeqId 0 0x7fffffff)).filterMap
          (Entry.remove destSeqId 0 0x7fffffff) :=
        congrArg (Multiset.filterMap _)
          (@entries_seqRm _ (stored shape target targetTensors) good'.cache destSeqId (-1) (-1))
    _ = _ := by
        rw [Multiset.filterMap_filterMap]
        exact congrArg (fun f => Multiset.filterMap f _) (funext fun e => remove_remove dest e)

theorem savedCells_ne_nil {kv : KvCache} (length : kv.cells.length = kv.size) {seqId : Int}
    (single : seqId ≠ -1) (some' : ∃ cell ∈ kv.cells, seqId ∈ cell.seqId) :
    savedCells kv seqId ≠ [] := by
  obtain ⟨cell, member, holds⟩ := some'
  obtain ⟨i, less, rfl⟩ := List.mem_iff_getElem.mp member
  refine List.ne_nil_of_mem (List.mem_filter.mpr ⟨List.mem_range.mpr (length ▸ less), ?_⟩)
  rw [saved_single single, KvCache.cellAt_of_lt less]
  exact holds

include storable good good' cells addressable counted in
/-- A sequence that is written is read as any sequence of any cache: the sequence is replaced,
what the other sequences have stays.  Only if no block of free cells is long enough is it not
restored, and then the old one is gone. -/
theorem sequence_round_trip {seqId destSeqId : Int} (single : 0 ≤ seqId) (dest : 0 ≤ destSeqId)
    (some' : ∃ cell ∈ kv.cells, seqId ∈ cell.seqId) (rest : Bytes) :
    let sequence := (stored shape kv tensors).entries.filterMap (Entry.sequence seqId destSeqId)
    ∃ bytes ok next nextTensors left, stateWrite shape kv tensors seqId = some bytes ∧
      Yields (stateRead shape target targetTensors destSeqId) (bytes ++ rest)
        (ok, next, nextTensors) left ∧
      (stored shape next nextTensors).Consistent ∧
      (stored shape next nextTensors).entries =
        (stored shape target targetTensors).entries.filterMap
          (Entry.remove destSeqId 0 0x7fffffff) + (if ok then sequence else 0) ∧
      (ok = true → left = rest) ∧
      (ok = false ↔ ∀ first, first + sequence.card ≤ target.size → ∃ k < sequence.card,
        ((target.seqRm destSeqId (-1) (-1)).cellAt (first + k)).Taken) := by
  intro sequence
  obtain ⟨ranges, data, ranged, bound, fits, small, writtenData, written⟩ :=
    written_cells storable good cells addressable seqId
  have entries : sequence = _ := entries_single good (by omega) destSeqId
  have count : sequence.card = (rangeCells ranges).length := by
    rw [entries, Multiset.coe_card, List.length_map, ranged]
  have nonempty : (rangeCells ranges).map kv.cellAt ≠ [] := by
    rw [ranged]
    exact mt List.map_eq_nil_iff.mp (savedCells_ne_nil good.cache.length (by omega) some')
  have columns : ((rangeCells ranges).map kv.cellAt).map (KvCell.renamed destSeqId) =
      (rangeCells ranges).map fun i => (kv.cellAt i).renamed destSeqId := List.map_map
  have proper : ∀ col ∈ (rangeCells ranges).map fun i => (kv.cellAt i).renamed destSeqId,
      col.Proper := by
    intro col member
    obtain ⟨i, known, rfl⟩ := List.mem_map.mp member
    rw [ranged] at known
    exact ⟨pos_savedCells good.cache known, List.cons_ne_nil _ _⟩
  have removed : (stored shape (target.seqRm destSeqId (-1) (-1)) targetTensors).Consistent :=
    good'.seqRm destSeqId (-1) (-1)
  have left' : (stored shape (target.seqRm destSeqId (-1) (-1)) targetTensors).entries =
      (stored shape target targetTensors).entries.filterMap
        (Entry.remove destSeqId 0 0x7fffffff) :=
    @entries_seqRm _ (stored shape target targetTensors) good'.cache destSeqId (-1) (-1)
  have complete := findSlot_complete removed.cache (((rangeCells ranges).map kv.cellAt).map
    (KvCell.renamed destSeqId))
  rw [List.length_map, List.length_map, ← count] at complete
  cases found : (target.seqRm destSeqId (-1) (-1)).findSlot
      (((rangeCells ranges).map kv.cellAt).map (KvCell.renamed destSeqId)) with
  | none => exact absurd found (KvCache.findSlot_ends _ _)
  | some answer =>
      obtain ⟨slot, after⟩ := answer
      have read := @yields_metaSingle seqId destSeqId (by omega) (by omega) _ fits nonempty target
        after good'.cache.length slot found (data ++ rest)
      rw [List.length_map] at read
      cases slot with
      | failed =>
          obtain ⟨also, head, rfl⟩ := findSlot_failed removed.cache found
          have moved : (stored shape { target.seqRm destSeqId (-1) (-1) with head := head }
              targetTensors).Consistent := ⟨also, removed.settled⟩
          rw [show decide (SlotInfo.failed ≠ SlotInfo.failed) = false from rfl] at read
          refine ⟨_, false, KvCache.seqRm { target.seqRm destSeqId (-1) (-1) with head := head }
            destSeqId (-1) (-1), targetTensors, data ++ rest,
            written, ?_, moved.seqRm destSeqId (-1) (-1), ?_, fun none => by simp at none,
            iff_of_true rfl (complete.mp ⟨_, found⟩)⟩
          · rw [List.append_assoc, List.append_assoc]
            refine (yields_uint small _).bind (read.bind ?_)
            dsimp only
            rw [if_neg Bool.false_ne_true, if_neg Bool.false_ne_true]
            refine (yields_pure.mpr ⟨rfl, rfl⟩).bind ?_
            dsimp only
            rw [if_neg Bool.false_ne_true, if_neg (by omega)]
            exact yields_pure.mpr ⟨rfl, rfl⟩
          · rw [if_neg Bool.false_ne_true, Multiset.add_zero]
            exact entries_removed_again good' dest also
      | slot first second =>
          obtain ⟨inside, free, ends, rfl⟩ := findSlot_slot found
          rw [List.length_map, List.length_map] at inside ends
          have free' : ∀ k < (rangeCells ranges).length,
              ((target.seqRm destSeqId (-1) (-1)).cellAt (first + k)).pos < 0 :=
            fun k less => free _ (by omega) (by omega)
          obtain ⟨consistent, entries'⟩ := @block_restored shape kv
            (target.seqRm destSeqId (-1) (-1)) tensors targetTensors (rangeCells ranges)
            (KvCell.renamed destSeqId) first removed proper inside free' counted
          rw [columns, show decide (SlotInfo.slot first second ≠ .failed) = true from rfl] at read
          refine ⟨_, true, _, _, rest, written, ?_, consistent, ?_, fun _ => rfl,
            iff_of_false (by decide) fun none => ?_⟩
          · rw [List.append_assoc, List.append_assoc]
            refine (yields_uint small _).bind (read.bind ?_)
            dsimp only
            rw [if_pos rfl, if_neg Bool.false_ne_true]
            exact (yields_readData storable addressable bound tensors writtenData counted inside
              targetTensors rest).bind (yields_pure.mpr ⟨rfl, rfl⟩)
          · rw [if_pos rfl, ← left', entries, ← ranged]
            exact entries'
          · obtain ⟨after, failed⟩ := complete.mpr none
            exact absurd (found.symm.trans failed) (by simp)

/-- The sequence 1 becomes the sequence 7 of an empty cache. -/
theorem sequence_round_trip_two :
    ∃ bytes ok next nextTensors left,
      stateWrite oneLayer twoSequences ⟨fun _ i => .ofNat i, fun _ i => .ofNat (2 * i)⟩ 1 =
        some bytes ∧
      Yields (stateRead oneLayer (KvCache.init 2) KvTensors.cleared 7) (bytes ++ [])
        (ok, next, nextTensors) left ∧
      (stored oneLayer next nextTensors).Consistent := by
  obtain ⟨bytes, ok, next, nextTensors, left, written, read, kept, _⟩ :=
    sequence_round_trip oneLayer_storable (twoSequences_good _)
      (init_good oneLayer 2 KvTensors.cleared) twoSequences_storable
      (oneLayer_addressable (by decide)) (oneLayer_counted (by decide))
      (show (0 : Int) ≤ 1 by decide) (show (0 : Int) ≤ 7 by decide)
      ⟨_, List.mem_cons_of_mem _ (List.mem_cons_of_mem _ (List.mem_cons_self ..)), by decide⟩ []
  exact ⟨bytes, ok, next, nextTensors, left, written, read, kept⟩

end RoundTrip

end MineGPT.Kv
