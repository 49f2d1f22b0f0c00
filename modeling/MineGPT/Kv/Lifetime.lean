import MineGPT.Kv.Steps
import MineGPT.Lib.Machine

/-!
# The cache over its lifetime

Whatever operations are called on a cache, in whatever order, `Consistent` holds and
no assertion fails, and each operation has its effect on the entries and no other.
-/

set_option autoImplicit false

namespace MineGPT.Kv

open MineGPT.Lib.Places MineGPT.Lib.Compaction MineGPT.Lib.Machine

section Update

variable {β : Type} {shift : Int → β → β} {params : KvStore.Params}

/-- What `kv_self_update` does to an entry when a shift is pending. -/
def Entry.settle (shift : Int → β → β) (rotates : Bool) (e : Entry β) : Entry β :=
  { e with delta := 0, row := if rotates then shift e.delta e.row else e.row }

structure KvStore.Consistent (kv : KvStore β) : Prop where
  cache : kv.cache.Consistent
  /-- A difference is left only where a shift is pending. -/
  settled : kv.hasShift = false → ∀ cell ∈ kv.cache.cells, cell.delta = 0

theorem cellwise_settle : Cellwise (fun cell => { cell with delta := 0 }) (fun _ => false)
    (fun e => some { e with delta := 0 }) where
  sane := fun _ sane => sane
  freed := fun cell _ => by simp [taken_iff]
  entry := fun cell _ row _ => by
    by_cases full : cell.seqId = ∅
    · rw [entry_none full, entry_none (by exact full)]
      rfl
    · rw [entry_some full, entry_some (by exact full)]
      rfl

theorem applyShift_consistent {kv : KvStore β} (consistent : kv.cache.Consistent) :
    (kv.applyShift shift params).1.Consistent where
  cache := consistent.cellwise_kept cellwise_settle consistent.head
  settled := by
    intro _ cell member
    obtain ⟨before, _, rfl⟩ := List.mem_map.mp member
    rfl

theorem entries_applyShift {kv : KvStore β} (consistent : kv.cache.Consistent) :
    (kv.applyShift shift params).1.entries =
      kv.entries.map (Entry.settle shift params.rotates) := by
  rw [← Multiset.filterMap_eq_map, KvStore.entries, KvStore.entries, ← held_bind]
  apply held_congr
  intro i inside
  have less : i < kv.cache.cells.length := by rwa [consistent.length]
  have cell : (kv.applyShift shift params).1.cache.cellAt i =
      { kv.cache.cellAt i with delta := 0 } := by
    rw [KvCache.cellAt_of_lt less,
      KvCache.cellAt_of_lt (show i < (kv.cache.cells.map _).length by rwa [List.length_map])]
    exact List.getElem_map _
  rw [KvStore.contentAt, cell, KvStore.contentAt]
  by_cases full : (kv.cache.cellAt i).seqId = ∅
  · rw [entry_none full, entry_none (by exact full)]
    rfl
  · rw [entry_some full, entry_some (by exact full), Option.bind_some, Function.comp_apply,
      Entry.settle, KvStore.applyShift]
    dsimp only [KvCell.toEntry]
    split_ifs <;> rfl

def KvStore.settledEntries (shift : Int → β → β) (params : KvStore.Params) (kv : KvStore β) :
    Multiset (Entry β) :=
  if kv.hasShift then kv.entries.map (Entry.settle shift params.rotates) else kv.entries

theorem entries_congr {kv after : KvStore β} (cells : after.cache.cells = kv.cache.cells)
    (size : after.cache.size = kv.cache.size) (rows : after.rows = kv.rows) :
    after.entries = kv.entries := by
  unfold KvStore.entries KvStore.contentAt KvCache.cellAt
  rw [cells, size, rows]

theorem settle_spec {kv : KvStore β} (consistent : kv.Consistent)
    (able : kv.hasShift = true → params.canShift = true) :
    ∃ next needReserve, kv.settle shift params = some (next, needReserve) ∧ next.Consistent ∧
      next.hasShift = false ∧ next.cache.size = kv.cache.size ∧
      next.entries = kv.settledEntries shift params := by
  obtain ⟨middle, shifted, made, good, quiet, size, entries⟩ :
      ∃ middle shifted, (if kv.hasShift then kv.applyShift shift params else (kv, false)) =
          (middle, shifted) ∧ middle.Consistent ∧ middle.hasShift = false ∧
        middle.cache.size = kv.cache.size ∧
        middle.entries = kv.settledEntries shift params := by
    cases pending : kv.hasShift with
    | false =>
        refine ⟨kv, false, by simp, consistent, pending, rfl, ?_⟩
        rw [KvStore.settledEntries, pending]
        rfl
    | true =>
        refine ⟨_, _, if_pos rfl, applyShift_consistent consistent.cache, rfl, rfl, ?_⟩
        rw [KvStore.settledEntries, pending]
        exact entries_applyShift consistent.cache
  have allowed : (kv.hasShift && !params.canShift) = false := by
    cases some : kv.hasShift with
    | false => rfl
    | true => rw [able some]; rfl
  rw [KvStore.settle, allowed, made]
  dsimp only
  rw [if_neg (by simp)]
  by_cases asked : middle.doDefrag = true
  · obtain ⟨s, front, moves, inv, _, heads⟩ := defragMoves_spec good.cache params.maxMoves
    have inside : s.head ≤ middle.cache.size := by
      have head := good.cache.head
      have used := good.cache.used_le
      omega
    rw [if_pos asked, KvCache.defragPrepare, moves]
    refine ⟨{ middle with
        cache := { middle.cache with cells := s.cells, head := s.head }
        doDefrag := false
        rows := if s.nMoves != 0 then applyCopies middle.rows (buildDefrag s.ids)
          else middle.rows }, shifted || s.nMoves != 0, rfl,
      ⟨inv.consistent good.cache inside, fun _ => inv.forall_cells rfl (good.settled quiet)⟩,
      quiet, size, ?_⟩
    rw [← entries]
    exact inv.entries good.cache rfl rfl rfl
  · rw [if_neg asked]
    exact ⟨middle, shifted, rfl, good, quiet, size, entries⟩

/-- If keys were rotated or cells moved, a full micro-batch fits behind the head. -/
def KvStore.Fits (shift : Int → β → β) (params : KvStore.Params) (kv : KvStore β) : Prop :=
  ∀ settled, kv.settle shift params = some (settled, true) →
    settled.cache.head + min settled.cache.size params.nUbatch ≤ settled.cache.size

theorem selfUpdate_spec {kv : KvStore β} (consistent : kv.Consistent)
    (able : kv.hasShift = true → params.canShift = true) :
    ((∃ next, kv.selfUpdate shift params = some next) ↔ kv.Fits shift params) ∧
      ∀ next, kv.selfUpdate shift params = some next → next.Consistent ∧
        next.hasShift = false ∧ next.cache.size = kv.cache.size ∧
        next.entries = kv.settledEntries shift params := by
  obtain ⟨middle, needReserve, settled, good, quiet, size, entries⟩ :=
    @settle_spec _ shift params kv consistent able
  have fits : kv.Fits shift params ↔ (needReserve = true →
      middle.cache.head + min middle.cache.size params.nUbatch ≤ middle.cache.size) := by
    constructor
    · rintro fits rfl
      exact fits middle settled
    · intro fits other same
      obtain ⟨rfl, rfl⟩ := Prod.mk.inj (Option.some.inj (settled.symm.trans same))
      exact fits rfl
  rw [fits, KvStore.selfUpdate, settled, Option.bind_some]
  dsimp only
  cases needReserve with
  | false =>
      simp only [Bool.false_eq_true, if_false, false_implies, Option.some.injEq, exists_eq', true_and]
      rintro next rfl
      exact ⟨good, quiet, size, entries⟩
  | true =>
      simp only [if_true, true_implies, KvStore.reserve]
      split_ifs with room
      · refine ⟨iff_of_true ⟨_, rfl⟩ room, ?_⟩
        rintro next same
        obtain rfl := Option.some.inj same
        exact ⟨⟨{ good.cache with }, good.settled⟩, quiet, size,
          (entries_congr rfl rfl rfl).trans entries⟩
      · exact ⟨iff_of_false (by simp) room, fun next same => by simp at same⟩

/-- The new entries of a micro-batch, and what their rows are if it was computed. -/
def Added (compute : UToken → β) (ubatch : List UToken) (failed : Option (List β))
    (new : List (Entry β)) : Prop :=
  ∃ rows : List β, rows.length = ubatch.length ∧
    new = List.zipWith (fun column row => column.entry 0 row) ubatch rows ∧
    (failed = none → rows = ubatch.map compute)

theorem added_slot {compute : UToken → β} {ubatch : List UToken} {failed : Option (List β)}
    {cache : KvCache} (still : ∀ cell ∈ cache.cells, cell.delta = 0) (rows : Nat → β)
    {rows' : Nat → β} {first : Nat} (computed : failed = none →
      rows' = KvStore.writeRows rows first (ubatch.map compute)) :
    Added compute ubatch failed (slotEntries cache rows' first ubatch) := by
  refine ⟨(List.range ubatch.length).map fun k => rows' (first + k), by simp, ?_, fun done => ?_⟩
  · apply List.ext_getElem
    · simp [slotEntries]
    · intro k less _
      have delta : (cache.cellAt (first + k)).delta = 0 := by
        rcases Nat.lt_or_ge (first + k) cache.cells.length with known | beyond
        · rw [KvCache.cellAt_of_lt known]
          exact still _ (List.getElem_mem known)
        · rw [KvCache.cellAt, List.getD_eq_default _ _ beyond]
      simp [slotEntries, delta]
  · apply List.ext_getElem
    · simp
    · intro k less less'
      have inside : k < ubatch.length := by simpa using less
      have row : KvStore.writeRows rows first (ubatch.map compute) (first + k) =
          compute ubatch[k] := by
        rw [KvStore.writeRows, if_neg (by omega), Nat.add_sub_cancel_left, List.getElem?_map,
          List.getElem?_eq_getElem inside]
        rfl
      rw [List.getElem_map, List.getElem_map, List.getElem_range, computed done, row]

theorem writeRows_outside (rows : Nat → β) (first : Nat) {values : List β} {n i : Nat}
    (few : values.length ≤ n) (outside : i < first ∨ first + n ≤ i) :
    KvStore.writeRows rows first values i = rows i := by
  unfold KvStore.writeRows
  split_ifs with early
  · rfl
  · rw [List.getElem?_eq_none (by omega)]
    rfl

theorem slot_store (kv next : KvStore β) (compute : UToken → β) {ubatch : List UToken}
    (failed : Option (List β)) (consistent : kv.cache.Consistent)
    (still : ∀ cell ∈ kv.cache.cells, cell.delta = 0)
    (proper : ∀ column ∈ ubatch, column.Proper) {first second : Nat} {after : KvCache}
    (found : kv.cache.findSlot ubatch = some (.slot first second, after))
    (cells : next.cache.cells = after.cells) (size : next.cache.size = after.size)
    (used : next.cache.used = after.used) (head : next.cache.head ≤ next.cache.size)
    {values : List β} (few : values.length ≤ ubatch.length)
    (rows : next.rows = KvStore.writeRows kv.rows first values)
    (computed : failed = none → values = ubatch.map compute) :
    next.Consistent ∧ ∃ new, Added compute ubatch failed new ∧ next.entries = kv.entries + new := by
  obtain ⟨inside, free, rfl, rfl⟩ := findSlot_slot found
  have free' : ∀ k < ubatch.length, (kv.cache.cellAt (first + k)).pos < 0 :=
    fun k less => free _ (by omega) (by omega)
  have slot := consistent.slot proper inside free'
  refine ⟨⟨⟨?_, ?_, ?_, head⟩, fun _ => ?_⟩, _, added_slot still kv.rows fun done => ?_,
    entries_slot consistent proper inside free' (fun i _ outside => ?_) size cells⟩
  · rw [cells, size]
    exact slot.length
  · rw [cells]
    exact slot.sane
  · rw [cells, used]
    exact slot.used
  · rw [cells]
    exact forall_assignCells _ _ _ (fun _ _ zero => zero) still
  · rw [rows, computed done]
  · rw [rows, writeRows_outside kv.rows first few outside]

theorem decodeUbatch_of_selfUpdate {kv middle : KvStore β} (consistent : kv.Consistent)
    (able : kv.hasShift = true → params.canShift = true)
    (run : kv.selfUpdate shift params = some middle) (compute : UToken → β)
    {ubatch : List UToken} (proper : ∀ column ∈ ubatch, column.Proper)
    (failed : Option (List β)) :
    ∃ next, kv.decodeUbatch shift compute params ubatch failed = some next ∧ next.Consistent ∧
      next.hasShift = false ∧ next.cache.size = kv.cache.size ∧
      (next.entries = kv.settledEntries shift params ∨ ∃ new, Added compute ubatch failed new ∧
        next.entries = kv.settledEntries shift params + new) := by
  obtain ⟨good, quiet, size, entries⟩ := (selfUpdate_spec consistent able).2 middle run
  rw [KvStore.decodeUbatch, run, Option.bind_some]
  dsimp only
  obtain ⟨cache, same, kept, cells, size'⟩ : ∃ cache,
      (if middle.cache.used + 2 * ubatch.length < middle.cache.head then
        { middle.cache with head := 0 } else middle.cache) = cache ∧ cache.Consistent ∧
      cache.cells = middle.cache.cells ∧ cache.size = middle.cache.size := by
    refine ⟨_, rfl, ?_⟩
    split_ifs
    · exact ⟨{ good.cache with head := Nat.zero_le _ }, rfl, rfl⟩
    · exact ⟨good.cache, rfl, rfl⟩
  rw [same]
  have still : ∀ cell ∈ cache.cells, cell.delta = 0 := by
    rw [cells]
    exact good.settled quiet
  cases found : cache.findSlot ubatch with
  | none => exact absurd found (KvCache.findSlot_ends cache ubatch)
  | some answer =>
      obtain ⟨slot, after⟩ := answer
      rw [Option.map_some]
      have entries' : KvStore.entries { middle with cache := cache } =
          kv.settledEntries shift params :=
        (@entries_congr β middle { middle with cache := cache } cells size' rfl).trans entries
      cases slot with
      | failed =>
          obtain ⟨also, head, rfl⟩ := findSlot_failed kept found
          exact ⟨{ middle with cache := { cache with head := head } }, rfl, ⟨also, fun _ => still⟩,
            quiet, size'.trans size, Or.inl ((entries_congr rfl rfl rfl).trans entries')⟩
      | slot first second =>
          obtain ⟨inside, _, _, there⟩ := findSlot_slot found
          have place : after.size = cache.size ∧ after.head = first := by rw [there]; exact ⟨rfl, rfl⟩
          dsimp only
          rw [← entries']
          cases failed with
          | none =>
              obtain ⟨good, added⟩ := slot_store { middle with cache := cache }
                { middle with
                  cache := KvCache.advance { after with
                    n := min after.size (max getPadding (ggmlPad after.cellMax getPadding)) }
                    ubatch.length
                  rows := KvStore.writeRows middle.rows first (ubatch.map compute) }
                compute none kept still proper found rfl rfl rfl
                (by unfold KvCache.advance; dsimp only; split_ifs <;> omega)
                (Nat.le_of_eq (List.length_map _)) rfl (fun _ => rfl)
              exact ⟨_, rfl, good, quiet, place.1.trans (size'.trans size), Or.inr added⟩
          | some left =>
              obtain ⟨good, added⟩ := slot_store { middle with cache := cache }
                { middle with
                  cache := { after with
                    n := min after.size (max getPadding (ggmlPad after.cellMax getPadding)) }
                  rows := KvStore.writeRows middle.rows first (left.take ubatch.length) }
                compute (some left) kept still proper found rfl rfl rfl (by dsimp only; omega)
                (List.length_take_le _ _) rfl (fun done => by cases done)
              exact ⟨_, rfl, good, quiet, place.1.trans (size'.trans size), Or.inr added⟩

theorem decodeUbatch_spec {kv : KvStore β} (consistent : kv.Consistent)
    (able : kv.hasShift = true → params.canShift = true) (compute : UToken → β)
    {ubatch : List UToken} (proper : ∀ column ∈ ubatch, column.Proper)
    (failed : Option (List β)) :
    ((∃ next, kv.decodeUbatch shift compute params ubatch failed = some next) ↔
      kv.Fits shift params) ∧
      ∀ next, kv.decodeUbatch shift compute params ubatch failed = some next → next.Consistent ∧
        next.hasShift = false ∧ next.cache.size = kv.cache.size ∧
        (next.entries = kv.settledEntries shift params ∨ ∃ new, Added compute ubatch failed new ∧
          next.entries = kv.settledEntries shift params + new) := by
  refine ⟨⟨?_, ?_⟩, ?_⟩
  · rintro ⟨next, run⟩
    obtain ⟨middle, updated, _⟩ := Option.bind_eq_some_iff.mp run
    exact (selfUpdate_spec consistent able).1.mp ⟨middle, updated⟩
  · intro fits
    obtain ⟨middle, updated⟩ := (selfUpdate_spec consistent able).1.mpr fits
    obtain ⟨next, run, _⟩ :=
      decodeUbatch_of_selfUpdate consistent able updated compute proper failed
    exact ⟨next, run⟩
  · intro next run
    obtain ⟨middle, updated, _⟩ := Option.bind_eq_some_iff.mp run
    obtain ⟨other, same, spec⟩ :=
      decodeUbatch_of_selfUpdate consistent able updated compute proper failed
    obtain rfl := Option.some.inj (same.symm.trans run)
    exact spec

end Update

/-! ## Any sequence of operations -/

section Lifetime

variable {β : Type} (shift : Int → β → β) (compute : UToken → β) (zero : β)
  (params : KvStore.Params)

inductive KvOp (β : Type) where
  | clear
  | seqRm (seqId p0 p1 : Int)
  | seqCp (src dst p0 p1 : Int)
  | seqKeep (seqId : Int)
  | seqAdd (seqId p0 p1 delta : Int)
  | seqDiv (seqId p0 p1 d : Int)
  | defrag
  | update
  | ubatch (columns : List UToken) (failed : Option (List β))
  /-- The slot restorer of a decode that fails. -/
  | restore (restorer : SlotRestorer)

/-- `none` is an operation that aborts. -/
def KvStore.step (kv : KvStore β) : KvOp β → Option (KvStore β)
  | .clear => some { kv with cache := kv.cache.clear, rows := fun _ => zero }
  | .seqRm seqId p0 p1 => some { kv with cache := kv.cache.seqRm seqId p0 p1 }
  | .seqCp src dst p0 p1 => some { kv with cache := kv.cache.seqCp src dst p0 p1 }
  | .seqKeep seqId => some { kv with cache := kv.cache.seqKeep seqId }
  | .seqAdd seqId p0 p1 delta => some (kv.seqAdd seqId p0 p1 delta)
  | .seqDiv seqId p0 p1 d => some (kv.seqDiv seqId p0 p1 d)
  | .defrag => some kv.defrag
  | .update => kv.selfUpdate shift params
  | .ubatch columns failed => kv.decodeUbatch shift compute params columns failed
  | .restore restorer => some { kv with cache := restorer.restore kv.cache }

def KvStore.init (kvSize : Nat) : KvStore β :=
  { cache := KvCache.init kvSize, hasShift := false, doDefrag := false, rows := fun _ => zero }

/-- What the operations ask of their callers: proper columns, a divisor that is positive,
no shifts where the context does not support them. -/
def KvOp.Proper (kvSize : Nat) : KvOp β → Prop
  | .seqAdd _ _ _ _ => params.canShift = true
  | .seqDiv _ _ _ d => params.canShift = true ∧ 0 < d
  | .ubatch columns _ => ∀ column ∈ columns, column.Proper
  | .restore restorer => restorer.oldHead ≤ kvSize
  | _ => True

/-- `kv_self_update` aborts where its worst-case graph does not fit. -/
def KvOp.Fits (kv : KvStore β) : KvOp β → Prop
  | .update => kv.Fits shift params
  | .ubatch _ _ => kv.Fits shift params
  | _ => True

/-- What an operation does to the entries; the places and the head make no difference. -/
def Effect (op : KvOp β) (kv next : KvStore β) : Prop :=
  match op with
  | .clear => next.entries = 0
  | .seqRm seqId p0 p1 =>
    next.entries = kv.entries.filterMap (Entry.remove seqId (rangeBegin p0) (rangeEnd p1))
  | .seqCp src dst p0 p1 =>
    next.entries = kv.entries.filterMap (Entry.copy src dst (rangeBegin p0) (rangeEnd p1))
  | .seqKeep seqId => next.entries = kv.entries.filterMap (Entry.keep seqId)
  | .seqAdd seqId p0 p1 delta =>
    next.entries = kv.entries.filterMap (Entry.add seqId (rangeBegin p0) (rangeEnd p1) delta)
  | .seqDiv seqId p0 p1 d =>
    next.entries = kv.entries.filterMap (Entry.divide seqId (rangeBegin p0) (rangeEnd p1) d)
  | .defrag => next.entries = kv.entries
  | .update => next.entries = kv.settledEntries shift params
  | .ubatch columns failed =>
    next.entries = kv.settledEntries shift params ∨ ∃ new, Added compute columns failed new ∧
      next.entries = kv.settledEntries shift params + new
  | .restore restorer =>
    next.entries = if restorer.doRestore then
        restorer.slotBoundaries.foldl (fun entries slot =>
          entries.filterMap (Entry.remove (-1) (rangeBegin slot.1) (rangeEnd slot.2))) kv.entries
      else kv.entries

/-- The invariant of the machine. -/
structure KvStore.Good (kvSize : Nat) (kv : KvStore β) : Prop where
  consistent : kv.Consistent
  size : kv.cache.size = kvSize
  able : kv.hasShift = true → params.canShift = true

variable {shift compute zero params} {kv : KvStore β} {kvSize : Nat}

theorem good_init : (KvStore.init zero kvSize).Good params kvSize where
  consistent := by
    have empty : ∀ cell ∈ List.replicate kvSize ({} : KvCell), cell = {} :=
      fun cell member => List.eq_of_mem_replicate member
    refine ⟨⟨List.length_replicate, fun cell member => ?_, ?_, Nat.zero_le _⟩, fun _ cell member => ?_⟩
    · rw [empty cell member]
      exact Or.inl ⟨rfl, rfl⟩
    · refine (List.countP_eq_zero.mpr fun cell member => ?_).symm
      rw [empty cell member]
      decide
    · rw [empty cell member]
  size := rfl
  able := fun pending => by cases pending

theorem KvStore.Consistent.onCache (consistent : kv.Consistent) {cache : KvCache}
    (kept : cache.Consistent) {f : KvCell → KvCell} (cells : cache.cells = kv.cache.cells.map f)
    (same : ∀ cell, (f cell).delta = cell.delta) :
    KvStore.Consistent { kv with cache := cache } where
  cache := kept
  settled := by
    intro quiet cell member
    dsimp only at member
    rw [cells] at member
    obtain ⟨before, known, rfl⟩ := List.mem_map.mp member
    rw [same, consistent.settled quiet before known]

theorem remove_delta (cell : KvCell) (seqId p0 p1 : Int) :
    (cell.remove seqId p0 p1).1.delta = cell.delta := by
  unfold KvCell.remove
  split_ifs <;> rfl

theorem copy_delta (cell : KvCell) (src dst p0 p1 : Int) :
    (cell.copy src dst p0 p1).delta = cell.delta := by
  unfold KvCell.copy
  split_ifs <;> rfl

theorem keep_delta (cell : KvCell) (seqId : Int) : (cell.keep seqId).delta = cell.delta := by
  unfold KvCell.keep
  split_ifs <;> rfl

theorem KvStore.Consistent.seqRm (consistent : kv.Consistent) (seqId p0 p1 : Int) :
    KvStore.Consistent { kv with cache := kv.cache.seqRm seqId p0 p1 } :=
  consistent.onCache (consistent.cache.seqRm seqId p0 p1) rfl fun cell => remove_delta cell _ _ _

theorem KvStore.Consistent.seqCp (consistent : kv.Consistent) (src dst p0 p1 : Int) :
    KvStore.Consistent { kv with cache := kv.cache.seqCp src dst p0 p1 } := by
  have kept := consistent.cache.seqCp src dst p0 p1
  unfold KvCache.seqCp at kept ⊢
  split_ifs at kept ⊢ with same
  · exact consistent
  · exact consistent.onCache kept rfl fun cell => copy_delta cell _ _ _ _

theorem forall_delta {cells : List KvCell} (zero : ∀ cell ∈ cells, cell.delta = 0)
    {f : KvCell → KvCell} {selected : KvCell → Bool}
    (same : ∀ cell, selected cell = false → f cell = cell) (none : cells.any selected = false) :
    ∀ cell ∈ cells.map f, cell.delta = 0 := by
  intro cell member
  obtain ⟨before, known, rfl⟩ := List.mem_map.mp member
  rw [List.any_eq_false] at none
  rw [same before (by simpa using none before known), zero before known]

theorem KvStore.Consistent.seqAdd (consistent : kv.Consistent) (seqId p0 p1 delta : Int) :
    (kv.seqAdd seqId p0 p1 delta).Consistent where
  cache := consistent.cache.seqAdd seqId p0 p1 delta
  settled := by
    intro quiet
    simp only [KvStore.seqAdd, Bool.or_eq_false_iff] at quiet
    obtain ⟨before, shifted⟩ := quiet
    have zero := consistent.settled before
    unfold KvStore.seqAdd
    unfold KvCache.seqAdd at shifted ⊢
    dsimp only at shifted ⊢
    split_ifs at shifted ⊢
    · exact zero
    all_goals
      exact forall_delta zero (fun cell none => if_neg (by rw [none]; exact Bool.false_ne_true))
        shifted

theorem KvStore.Consistent.seqDiv (consistent : kv.Consistent) {d : Int} (positive : 0 < d)
    (seqId p0 p1 : Int) : (kv.seqDiv seqId p0 p1 d).Consistent where
  cache := consistent.cache.seqDiv positive seqId p0 p1
  settled := by
    intro quiet
    simp only [KvStore.seqDiv, Bool.or_eq_false_iff] at quiet
    obtain ⟨before, shifted⟩ := quiet
    have zero := consistent.settled before
    unfold KvStore.seqDiv
    unfold KvCache.seqDiv at shifted ⊢
    dsimp only at shifted ⊢
    split_ifs at shifted ⊢
    · exact zero
    · exact forall_delta zero (fun cell none => if_neg (by rw [none]; exact Bool.false_ne_true))
        shifted

theorem foldl_seqRm_spec : ∀ (slots : List (Nat × Nat)) (kv : KvStore β), kv.Consistent →
    ∃ cache, slots.foldl (fun cache slot => cache.seqRm (-1) slot.1 slot.2) kv.cache = cache ∧
      KvStore.Consistent { kv with cache := cache } ∧ cache.size = kv.cache.size ∧
      KvStore.entries { kv with cache := cache } = slots.foldl (fun entries slot =>
        entries.filterMap (Entry.remove (-1) (rangeBegin slot.1) (rangeEnd slot.2))) kv.entries := by
  intro slots
  induction slots with
  | nil => exact fun kv consistent => ⟨_, rfl, consistent, rfl, rfl⟩
  | cons slot rest ih =>
      intro kv consistent
      obtain ⟨cache, same, kept, size, entries⟩ := ih _ (consistent.seqRm (-1) slot.1 slot.2)
      refine ⟨cache, same, kept, size, entries.trans ?_⟩
      rw [entries_seqRm consistent.cache, List.foldl_cons]

theorem restore_spec (good : kv.Good params kvSize) {restorer : SlotRestorer}
    (inside : restorer.oldHead ≤ kvSize) :
    KvStore.Good params kvSize { kv with cache := restorer.restore kv.cache } ∧
      KvStore.entries { kv with cache := restorer.restore kv.cache } =
        if restorer.doRestore then
          restorer.slotBoundaries.foldl (fun entries slot =>
            entries.filterMap (Entry.remove (-1) (rangeBegin slot.1) (rangeEnd slot.2))) kv.entries
        else kv.entries := by
  unfold SlotRestorer.restore
  split_ifs with asked
  · have start : KvStore.Consistent
        { kv with cache := { kv.cache with head := restorer.oldHead, n := restorer.oldN } } :=
      ⟨{ good.consistent.cache with head := good.size ▸ inside }, good.consistent.settled⟩
    obtain ⟨cache, same, kept, size, entries⟩ := foldl_seqRm_spec restorer.slotBoundaries _ start
    rw [same]
    exact ⟨⟨kept, size.trans good.size, good.able⟩, entries⟩
  · exact ⟨good, rfl⟩

theorem step_taken (good : kv.Good params kvSize) {op : KvOp β} (proper : op.Proper params kvSize) :
    (∃ next, kv.step shift compute zero params op = some next) ↔ op.Fits shift params kv := by
  cases op with
  | update => exact (selfUpdate_spec good.consistent good.able).1
  | ubatch columns failed =>
      exact (decodeUbatch_spec good.consistent good.able compute proper failed).1
  | _ => exact iff_of_true ⟨_, rfl⟩ trivial

theorem step_spec (good : kv.Good params kvSize) {op : KvOp β} (proper : op.Proper params kvSize)
    {next : KvStore β} (taken : kv.step shift compute zero params op = some next) :
    next.Good params kvSize ∧ Effect shift compute params op kv next := by
  obtain ⟨consistent, size, able⟩ := good
  cases op with
  | clear =>
      obtain rfl := Option.some.inj taken
      exact ⟨⟨⟨consistent.cache.clear, (consistent.onCache consistent.cache.clear rfl
        fun _ => rfl).settled⟩, size, able⟩, entries_clear rfl⟩
  | seqRm seqId p0 p1 =>
      obtain rfl := Option.some.inj taken
      exact ⟨⟨consistent.seqRm seqId p0 p1, size, able⟩,
        entries_seqRm consistent.cache seqId p0 p1⟩
  | seqCp src dst p0 p1 =>
      obtain rfl := Option.some.inj taken
      refine ⟨⟨consistent.seqCp src dst p0 p1, ?_, able⟩,
        entries_seqCp consistent.cache src dst p0 p1⟩
      dsimp only
      unfold KvCache.seqCp
      split_ifs <;> exact size
  | seqKeep seqId =>
      obtain rfl := Option.some.inj taken
      exact ⟨⟨consistent.onCache (consistent.cache.seqKeep seqId) rfl
        fun cell => keep_delta cell seqId, size, able⟩, entries_seqKeep consistent.cache seqId⟩
  | seqAdd seqId p0 p1 delta =>
      obtain rfl := Option.some.inj taken
      refine ⟨⟨consistent.seqAdd seqId p0 p1 delta, ?_, fun _ => proper⟩,
        entries_seqAdd consistent.cache seqId p0 p1 delta⟩
      unfold KvStore.seqAdd KvCache.seqAdd
      dsimp only
      split_ifs <;> exact size
  | seqDiv seqId p0 p1 d =>
      obtain rfl := Option.some.inj taken
      refine ⟨⟨consistent.seqDiv proper.2 seqId p0 p1, ?_, fun _ => proper.1⟩,
        entries_seqDiv consistent.cache proper.2 seqId p0 p1⟩
      unfold KvStore.seqDiv KvCache.seqDiv
      dsimp only
      split_ifs <;> exact size
  | defrag =>
      obtain rfl := Option.some.inj taken
      exact ⟨⟨⟨consistent.cache, consistent.settled⟩, size, able⟩, rfl⟩
  | update =>
      obtain ⟨kept, quiet, same, entries⟩ := (selfUpdate_spec consistent able).2 next taken
      exact ⟨⟨kept, same.trans size, fun pending => by simp [quiet] at pending⟩, entries⟩
  | ubatch columns failed =>
      obtain ⟨kept, quiet, same, entries⟩ :=
        (decodeUbatch_spec consistent able compute proper failed).2 next taken
      exact ⟨⟨kept, same.trans size, fun pending => by simp [quiet] at pending⟩, entries⟩
  | restore restorer =>
      obtain rfl := Option.some.inj taken
      exact restore_spec ⟨consistent, size, able⟩ proper

end Lifetime

/-! ## Keys are rotated to their positions -/

/-- What a row of the tensors stands for: the token it was computed from, and the position
its key is rotated to. -/
structure Row where
  token : Int
  rotated : Int
  deriving DecidableEq, Repr

def Row.shift (delta : Int) (row : Row) : Row := { row with rotated := row.rotated + delta }

def Row.compute (column : UToken) : Row := { token := column.token, rotated := column.pos }

section Rotation

variable {params : KvStore.Params} {kvSize : Nat} {zero : Row}

/-- The key lags behind by what is pending. -/
def Entry.Rotated (e : Entry Row) : Prop := e.row.rotated = e.pos - e.delta

theorem rotated_filterMap {entries : Multiset (Entry Row)} {change : Entry Row → Option (Entry Row)}
    (keep : ∀ e e' : Entry Row, e.Rotated → change e = some e' → e'.Rotated)
    (all : ∀ e ∈ entries, e.Rotated) : ∀ e ∈ entries.filterMap change, e.Rotated := by
  intro e' member
  obtain ⟨e, known, here⟩ := (Multiset.mem_filterMap _ _).mp member
  exact keep e e' (all e known) here

theorem rotated_remove {seqId p0 p1 : Int} (e e' : Entry Row) (rotated : e.Rotated)
    (here : e.remove seqId p0 p1 = some e') : e'.Rotated := by
  unfold Entry.remove at here
  dsimp only at here
  split_ifs at here <;> cases here <;> exact rotated

theorem rotated_copy {src dst p0 p1 : Int} (e e' : Entry Row) (rotated : e.Rotated)
    (here : e.copy src dst p0 p1 = some e') : e'.Rotated := by
  unfold Entry.copy at here
  split_ifs at here <;> obtain rfl := Option.some.inj here <;> exact rotated

theorem rotated_keep {seqId : Int} (e e' : Entry Row) (rotated : e.Rotated)
    (here : e.keep seqId = some e') : e'.Rotated := by
  unfold Entry.keep at here
  split_ifs at here
  obtain rfl := Option.some.inj here
  exact rotated

theorem rotated_add {seqId p0 p1 delta : Int} (e e' : Entry Row) (rotated : e.Rotated)
    (here : e.add seqId p0 p1 delta = some e') : e'.Rotated := by
  unfold Entry.add at here
  unfold Entry.Rotated at *
  split_ifs at here <;> obtain rfl := Option.some.inj here
  · dsimp only
    omega
  · exact rotated

theorem rotated_divide {seqId p0 p1 d : Int} (e e' : Entry Row) (rotated : e.Rotated)
    (here : e.divide seqId p0 p1 d = some e') : e'.Rotated := by
  unfold Entry.divide at here
  unfold Entry.Rotated at *
  split_ifs at here <;> obtain rfl := Option.some.inj here
  · dsimp only
    omega
  · exact rotated

theorem rotated_settled (rotates : params.rotates = true) {kv : KvStore Row}
    (all : ∀ e ∈ kv.entries, e.Rotated) : ∀ e ∈ kv.settledEntries Row.shift params, e.Rotated := by
  unfold KvStore.settledEntries
  split_ifs with pending
  · intro e' member
    obtain ⟨e, known, rfl⟩ := Multiset.mem_map.mp member
    have rotated := all e known
    unfold Entry.Rotated Entry.settle Row.shift at *
    rw [if_pos rotates]
    dsimp only
    omega
  · exact all

theorem rotated_added {columns : List UToken} {new : List (Entry Row)}
    (added : Added Row.compute columns none new) : ∀ e ∈ new, e.Rotated := by
  obtain ⟨rows, _, rfl, computed⟩ := added
  rw [computed rfl]
  intro e member
  rw [List.zipWith_map_right, List.zipWith_self] at member
  obtain ⟨column, _, rfl⟩ := List.mem_map.mp member
  exact (Int.sub_zero _).symm

/-- A computation that fails leaves rows that are not what they should be. -/
def KvOp.Computed : KvOp Row → Prop
  | .ubatch _ failed => failed = none
  | _ => True

theorem rotated_effect (rotates : params.rotates = true) {op : KvOp Row} (computed : op.Computed)
    {kv next : KvStore Row} (all : ∀ e ∈ kv.entries, e.Rotated)
    (effect : Effect Row.shift Row.compute params op kv next) : ∀ e ∈ next.entries, e.Rotated := by
  cases op with
  | clear =>
      rw [show next.entries = 0 from effect]
      exact fun e member => absurd member (Multiset.notMem_zero e)
  | seqRm seqId p0 p1 =>
      rw [show next.entries = _ from effect]
      exact rotated_filterMap rotated_remove all
  | seqCp src dst p0 p1 =>
      rw [show next.entries = _ from effect]
      exact rotated_filterMap rotated_copy all
  | seqKeep seqId =>
      rw [show next.entries = _ from effect]
      exact rotated_filterMap rotated_keep all
  | seqAdd seqId p0 p1 delta =>
      rw [show next.entries = _ from effect]
      exact rotated_filterMap rotated_add all
  | seqDiv seqId p0 p1 d =>
      rw [show next.entries = _ from effect]
      exact rotated_filterMap rotated_divide all
  | defrag =>
      rw [show next.entries = _ from effect]
      exact all
  | update =>
      rw [show next.entries = _ from effect]
      exact rotated_settled rotates all
  | ubatch columns failed =>
      have settled := rotated_settled rotates all
      rcases effect with none | ⟨new, added, entries⟩
      · rw [none]
        exact settled
      · rw [entries]
        intro e member
        rcases Multiset.mem_add.mp member with old | fresh
        · exact settled e old
        · rw [show failed = none from computed] at added
          exact rotated_added added e (Multiset.mem_coe.mp fresh)
  | restore restorer =>
      rw [show next.entries = _ from effect]
      split_ifs with asked
      · have each : ∀ (slots : List (Nat × Nat)) (entries : Multiset (Entry Row)),
            (∀ e ∈ entries, e.Rotated) → ∀ e ∈ slots.foldl (fun entries slot =>
              entries.filterMap (Entry.remove (-1) (rangeBegin slot.1) (rangeEnd slot.2))) entries,
              e.Rotated := by
          intro slots
          induction slots with
          | nil => exact fun _ all => all
          | cons slot rest ih => exact fun _ all => ih _ (rotated_filterMap rotated_remove all)
        exact each _ _ all
      · exact all

theorem KvStore.Consistent.entry_settled {kv : KvStore Row} (consistent : kv.Consistent)
    (quiet : kv.hasShift = false) : ∀ e ∈ kv.entries, e.delta = 0 := by
  intro e member
  obtain ⟨i, inside, here⟩ := mem_held.mp member
  have less : i < kv.cache.cells.length := by rwa [consistent.cache.length]
  rw [KvStore.contentAt, KvCache.cellAt_of_lt less, KvCell.entry] at here
  split_ifs at here
  rw [← Option.some.inj here]
  exact consistent.settled quiet _ (List.getElem_mem less)

/-- Whatever operations are called, the key of every entry is rotated to its position, or
will be by the shift that is pending. -/
theorem lifetime_rotated (rotates : params.rotates = true) {ops : List (KvOp Row)}
    (proper : ∀ op ∈ ops, op.Proper params kvSize) (computed : ∀ op ∈ ops, op.Computed) :
    Visits (KvStore.step Row.shift Row.compute zero params)
      (fun kv => ∀ e ∈ kv.entries, e.row.rotated = e.pos - e.delta ∧
        (kv.hasShift = false → e.row.rotated = e.pos)) (KvStore.init zero kvSize) ops := by
  have start : ∀ e ∈ (KvStore.init zero kvSize).entries, e.Rotated := by
    have none : (KvStore.init zero kvSize).entries = 0 := by
      rw [← Multiset.card_eq_zero, ← (@good_init _ zero params kvSize).consistent.cache.used_eq]
      rfl
    rw [none]
    exact fun e member => absurd member (Multiset.notMem_zero e)
  have keep : ∀ (kv : KvStore Row) (op : KvOp Row) (next : KvStore Row),
      (kv.Good params kvSize ∧ ∀ e ∈ kv.entries, e.Rotated) →
      (op.Proper params kvSize ∧ op.Computed) →
      kv.step Row.shift Row.compute zero params op = some next →
      next.Good params kvSize ∧ ∀ e ∈ next.entries, e.Rotated := by
    intro kv op next good guard taken
    obtain ⟨kept, effect⟩ := step_spec good.1 guard.1 taken
    exact ⟨kept, rotated_effect rotates guard.2 good.2 effect⟩
  have visits := visits_of_stepsMeet keep ⟨good_init, start⟩
    (stepsMeet_of_forall fun op member => ⟨proper op member, computed op member⟩)
  refine visits.mono fun kv good e member => ?_
  have rotated := good.2 e member
  refine ⟨rotated, fun quiet => ?_⟩
  have settled := good.1.consistent.entry_settled quiet e member
  unfold Entry.Rotated at rotated
  omega

theorem lifetime_rotated_shifted :
    Visits (KvStore.step Row.shift Row.compute ⟨0, 0⟩ ⟨true, true, 4, 2⟩)
      (fun kv => ∀ e ∈ kv.entries, e.row.rotated = e.pos - e.delta ∧
        (kv.hasShift = false → e.row.rotated = e.pos)) (KvStore.init ⟨0, 0⟩ 4)
      [.ubatch [⟨5, 0, [0]⟩, ⟨6, 1, [0]⟩] none, .seqRm 0 0 1, .seqAdd 0 1 (-1) (-1), .update] :=
  lifetime_rotated rfl (by simp [KvOp.Proper, UToken.Proper]) (by simp [KvOp.Computed])

end Rotation

end MineGPT.Kv
