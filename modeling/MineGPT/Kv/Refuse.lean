import MineGPT.Kv.Restore

/-!
# Reading any bytes

What `state_read` takes for a state may be anything.  Whatever the bytes are, none of its
assertions fails where the values are not quantized, no other sequence is touched, and
if the whole cache is refused it is empty.
-/

set_option autoImplicit false

namespace MineGPT.Kv

open MineGPT.Lib MineGPT.Lib.ByteString MineGPT.Lib.Reader MineGPT.Lib.Places

/-! ## The data -/

section Data

variable {E : StateCrash → Prop}

theorem safe_tensorSet {nbytes offset : Nat} (mem : Nat → UInt8) {data : Bytes}
    (inside : ¬ E .ggmlAssert → offset + data.length ≤ nbytes) :
    Safe E (fun _ => True) (tensorSet nbytes mem offset data) := by
  refine safe_ite (fun _ => safe_pure trivial) fun beyond => safe_abort ?_
  by_contra none
  exact beyond (Or.inr (inside none))

variable {head size cellCount : Nat}

theorem safe_readTyped {tensor : KvTensorType} (counted : tensor.nEmbdGqa * size < 2 ^ 32)
    (inside : head + cellCount ≤ size) (mem : Nat → UInt8) :
    Safe E (fun _ => True) (readTyped head size cellCount tensor mem) := by
  refine safe_int32.bind fun typeRef _ => safe_ite (fun _ => safe_pure trivial) fun _ => ?_
  refine (safe_uint 8).bind fun sizeRowRef _ => safe_ite (fun _ => safe_pure trivial) fun _ => ?_
  refine safe_ite (fun _ => safe_pure trivial) fun _ => (safe_take _).bind fun rows _ => ?_
  refine (safe_tensorSet mem fun _ => ?_).bind fun mem _ => safe_pure trivial
  rw [rows.2, ← Nat.add_mul]
  exact (Nat.mul_le_mul_right _ inside).trans (KvTensorType.rows_inside counted)

theorem safe_readTransposed {nbytes vSizeEl rows : Nat}
    (enough : ¬ E .ggmlAssert → rows * size * vSizeEl ≤ nbytes)
    (inside : head + cellCount ≤ size) : ∀ (n j : Nat) (_ : j + n ≤ rows) (mem : Nat → UInt8),
    Safe E (fun _ => True) (readTransposed head size cellCount nbytes vSizeEl n j mem) := by
  intro n
  induction n with
  | zero => exact fun _ _ _ => safe_pure trivial
  | succ n ih =>
      intro j few mem
      refine (safe_take _).bind fun row _ => (safe_tensorSet mem fun none => ?_).bind
        fun mem _ => ih (j + 1) (by omega) mem
      rw [row.2]
      exact (element_inside inside (by omega) vSizeEl).trans (enough none)

theorem safe_readValuesTrans {layer : KvLayer} (counted : layer.v.nEmbdGqa * size < 2 ^ 32)
    (inside : head + cellCount ≤ size) (blocks : layer.v.blckSize ≠ 1 → E .ggmlAssert)
    (mem : Nat → UInt8) :
    Safe E (fun _ => True) (readValuesTrans head size cellCount layer mem) := by
  refine safe_int32.bind fun vTypeRef _ => safe_ite (fun _ => safe_pure trivial) fun _ => ?_
  refine (safe_uint 4).bind fun vSizeElRef _ => safe_ite (fun _ => safe_pure trivial) fun _ => ?_
  refine (safe_uint 4).bind fun nEmbdVGqaRef _ =>
    safe_ite (fun _ => safe_pure trivial) fun _ => safe_ite (fun _ => safe_pure trivial) fun _ => ?_
  refine (safe_readTransposed (fun none => ?_) inside _ 0 (Nat.zero_add _).le mem).bind
    fun mem _ => safe_pure trivial
  have single : layer.v.blckSize = 1 := by
    by_contra more
    exact none (blocks more)
  exact (KvTensorType.nbytes_of_blckSize counted single).ge

theorem safe_readLayers {read : KvLayer → (Nat → UInt8) → StateReader (Bool × (Nat → UInt8))} :
    ∀ (layers : List KvLayer)
    (_ : ∀ layer ∈ layers, ∀ mem, Safe E (fun _ => True) (read layer mem)) (il : Nat)
    (mems : Nat → Nat → UInt8), Safe E (fun _ => True) (readLayers read il layers mems) := by
  intro layers
  induction layers with
  | nil => exact fun _ _ _ => safe_pure trivial
  | cons layer rest ih =>
      intro each il mems
      refine (each layer (by simp) (mems il)).bind fun answer _ => ?_
      exact safe_ite (fun _ => ih (fun other member => each other (by simp [member])) (il + 1) _)
        fun _ => safe_pure trivial

theorem safe_stateReadData {shape : KvShape} (counted : shape.Counted size)
    (inside : head + cellCount ≤ size)
    (blocks : (∃ layer ∈ shape.layers, layer.v.blckSize ≠ 1) → E .ggmlAssert)
    (tensors : KvTensors) :
    Safe E (fun _ => True) (stateReadData head size cellCount shape tensors) := by
  refine (safe_uint 4).bind fun vTrans _ => (safe_uint 4).bind fun nLayer _ => ?_
  refine safe_ite (fun _ => safe_pure trivial) fun _ => safe_ite (fun _ => safe_pure trivial)
    fun _ => safe_ite (fun _ => safe_pure trivial) fun _ => ?_
  refine (safe_readLayers _ (fun layer member mem =>
    safe_readTyped (counted layer member).1 inside mem) _ _).bind
    fun keys _ => safe_ite (fun _ => safe_pure trivial) fun _ => ?_
  have values : ∀ layer ∈ shape.layers, ∀ mem, Safe E (fun _ => True)
      ((if vTrans = 0 then readValues head size cellCount
        else readValuesTrans head size cellCount) layer mem) := by
    intro layer member mem
    have small := (counted layer member).2
    split_ifs
    · exact safe_readTyped small inside mem
    · exact safe_readValuesTrans small inside (fun more => blocks ⟨layer, member, more⟩) mem
  refine (safe_readLayers _ values _ _).bind fun answer _ => ?_
  exact safe_pure trivial

end Data

/-! ## The cells -/

section Cells

variable {E : StateCrash → Prop}

theorem safe_readPositions : ∀ n, Safe E
    (fun positions => ∀ all, positions = some all → all.length = n) (readPositions n) := by
  intro n
  induction n with
  | zero =>
      refine safe_pure fun all same => ?_
      obtain rfl := Option.some.inj same
      rfl
  | succ n ih =>
      refine safe_int32.bind fun pos _ => (safe_uint 4).bind fun nSeqId _ =>
        safe_ite (fun _ => safe_pure (by simp)) fun _ => ih.bind fun later known => ?_
      refine safe_pure fun all same => ?_
      obtain ⟨rest, some, rfl⟩ := Option.map_eq_some_iff.mp same
      rw [List.length_cons, known rest some]

theorem safe_readSeqIds : ∀ n, Safe E (fun _ => True) (readSeqIds n) := by
  intro n
  induction n with
  | zero => exact safe_pure trivial
  | succ n ih =>
      exact safe_int32.bind fun seqId _ =>
        safe_ite (fun _ => safe_pure trivial) fun _ => ih.bind fun later _ => safe_pure trivial

theorem safe_readCells : ∀ (n i : Nat) (kv : KvCache),
    Safe E (fun answer => answer.2.cells.length = kv.cells.length ∧ answer.2.size = kv.size)
      (readCells n i kv) := by
  intro n
  induction n with
  | zero => exact fun i kv => safe_pure ⟨rfl, rfl⟩
  | succ n ih =>
      intro i kv
      refine safe_int32.bind fun pos _ => (safe_uint 4).bind fun nSeqId _ =>
        (safe_readSeqIds nSeqId).bind fun ids _ => ?_
      refine safe_ite (fun _ => (ih (i + 1) _).mono fun answer same => ?_) fun _ => safe_pure ?_
      · exact ⟨same.1.trans (List.length_modify ..), same.2⟩
      · exact ⟨List.length_modify .., rfl⟩

end Cells

/-- The cache is as large as the one before, and what it holds without this sequence is where
it was. -/
structure Harmless (before : KvCache) (seqId : Int) (after : KvCache) : Prop where
  length : after.cells.length = after.size
  size : after.size = before.size
  others : seqId ≠ -1 → ∀ i, ((before.seqRm seqId (-1) (-1)).cellAt i).Taken →
    after.cellAt i = (before.seqRm seqId (-1) (-1)).cellAt i

theorem harmless_slot {kv after : KvCache} (consistent : kv.Consistent) {seqId : Int}
    {columns : List UToken} {slot : SlotInfo}
    (found : (kv.seqRm seqId (-1) (-1)).findSlot columns = some (slot, after)) :
    Harmless kv seqId after := by
  have removed := consistent.seqRm seqId (-1) (-1)
  cases slot with
  | failed =>
      obtain ⟨also, head, rfl⟩ := findSlot_failed removed found
      exact ⟨also.length, rfl, fun _ _ _ => rfl⟩
  | slot first second =>
      obtain ⟨inside, free, ends, rfl⟩ := findSlot_slot found
      refine ⟨by rw [length_assignCells]; exact removed.length, rfl, fun _ i held => ?_⟩
      have taken := (taken_cellAt removed i).mp held
      refine cellAt_outside _ ?_
      by_contra within
      have low := free i (by omega) (by omega)
      omega

/-- Only an empty sequence is a crash: its first position is read although there is none. -/
theorem safe_stateReadMeta {E : StateCrash → Prop} {kv : KvCache} (consistent : kv.Consistent)
    (cellCount : Nat) {destSeqId : Int} (empty : destSeqId ≠ -1 → E .emptyBatch) :
    Safe E (fun answer => Harmless kv destSeqId answer.2.1 ∧
        (answer.1 = true → answer.2.1.head + cellCount ≤ answer.2.1.size))
      (stateReadMeta kv cellCount destSeqId) := by
  refine safe_ite (fun dest => ?_) fun whole => ?_
  · have removed := consistent.seqRm destSeqId (-1) (-1)
    refine (safe_readPositions cellCount).bind fun positions known => ?_
    cases positions with
    | none => exact safe_pure ⟨⟨removed.length, rfl, fun _ _ _ => rfl⟩, fun done => by simp at done⟩
    | some positions =>
        have length := known positions rfl
        refine safe_ite (fun _ => safe_abort (empty dest)) fun some' => ?_
        have columns : positions.map (fun pos => (⟨0, pos, [destSeqId]⟩ : UToken)) =
            (positions.map fun pos => ({ pos := pos } : KvCell)).map
              (KvCell.renamed destSeqId) := by
          rw [List.map_map]
          rfl
        have same : (positions.map fun pos => ({ pos := pos } : KvCell)).map KvCell.pos =
            positions := by
          rw [List.map_map]
          exact List.map_id _
        cases found : (kv.seqRm destSeqId (-1) (-1)).findSlot
            (positions.map fun pos => (⟨0, pos, [destSeqId]⟩ : UToken)) with
        | none => exact absurd found (KvCache.findSlot_ends _ _)
        | some answer =>
            obtain ⟨slot, after⟩ := answer
            have kept := harmless_slot consistent found
            cases slot with
            | failed => exact safe_pure ⟨kept, fun done => by simp at done⟩
            | slot first second =>
                rw [columns] at found
                have checked := slot_checked (by simpa using some') removed.length found
                rw [same, List.length_map, length] at checked
                dsimp only
                rw [if_pos checked]
                exact safe_pure ⟨kept, fun _ => checked.1⟩
  · obtain rfl := not_not.mp whole
    refine safe_ite (fun _ => safe_pure ⟨⟨consistent.length, rfl, fun other => absurd rfl other⟩,
      fun done => by simp at done⟩) fun few =>
      (safe_readCells cellCount 0 kv.clear).bind fun answer same => ?_
    have length := same.1.trans (consistent.clear.length.trans same.2.symm)
    have kept : ∀ after : KvCache, after.cells = answer.2.cells → after.size = answer.2.size →
        Harmless kv (-1) after := by
      rintro after cells size
      exact ⟨by rw [cells, size, length], size.trans same.2, fun other => absurd rfl other⟩
    refine safe_ite (fun _ => safe_pure ⟨kept _ rfl rfl, fun _ => ?_⟩) fun _ =>
      safe_pure ⟨kept _ rfl rfl, fun done => by simp at done⟩
    have size : answer.2.size = kv.size := same.2
    dsimp only
    omega

/-! ## The whole state -/

theorem cellAt_seqRm (kv : KvCache) (seqId : Int) (i : Nat) :
    (kv.seqRm seqId (-1) (-1)).cellAt i = ((kv.cellAt i).remove seqId 0 0x7fffffff).1 := by
  have default : (KvCell.remove {} seqId 0 0x7fffffff).1 = {} := by simp [KvCell.remove]
  have mapped := List.getD_map kv.cells ({} : KvCell) (n := i) fun cell =>
    (KvCell.remove cell seqId 0 0x7fffffff).1
  rwa [default] at mapped

theorem remove_again {seqId : Int} (single : 0 ≤ seqId) (cell : KvCell) (p0 p1 : Int) :
    ((cell.remove seqId p0 p1).1.remove seqId p0 p1).1 = (cell.remove seqId p0 p1).1 := by
  have low := Int.not_lt.mpr single
  by_cases range : p0 ≤ cell.pos ∧ cell.pos < p1
  · by_cases member : seqId ∈ cell.seqId
    · by_cases last : cell.seqId.erase seqId = ∅
      · simp [KvCell.remove, range, low, member, last]
      · simp [KvCell.remove, range, low, member, last]
    · simp [KvCell.remove, range, low, member]
  · simp [KvCell.remove, range]

theorem Harmless.seqRm {before after : KvCache} {seqId : Int}
    (kept : Harmless before seqId after) (single : 0 ≤ seqId) :
    Harmless before seqId (after.seqRm seqId (-1) (-1)) where
  length := by
    rw [KvCache.seqRm, List.length_map]
    exact kept.length
  size := kept.size
  others := by
    intro other i held
    rw [cellAt_seqRm, kept.others other i held, cellAt_seqRm, remove_again single]

theorem clear_consistent {kv : KvCache} (length : kv.cells.length = kv.size) :
    kv.clear.Consistent where
  length := (List.length_map _).trans length
  sane := by
    intro cell member
    obtain ⟨before, _, rfl⟩ := List.mem_map.mp member
    exact Or.inl ⟨rfl, rfl⟩
  used := by
    refine (List.countP_eq_zero.mpr fun cell member => ?_).symm
    obtain ⟨before, _, rfl⟩ := List.mem_map.mp member
    simp [taken_iff]
  head := Nat.zero_le _

/-- What reading any bytes leaves: a whole cache that is refused is consistent and empty, its
tensors too. -/
structure ReadLeaves (shape : KvShape) (before : KvCache) (seqId : Int) (ok : Bool)
    (after : KvCache) (tensors : KvTensors) : Prop where
  harmless : Harmless before seqId after
  refused : ok = false → seqId = -1 → after.Consistent ∧ (stored shape after tensors).entries = 0 ∧
    tensors = KvTensors.cleared

/-- Where reading any bytes can crash: a sequence without cells, and the bounds of values that
are in blocks. -/
def StateCrash.Known (shape : KvShape) (seqId : Int) (crash : StateCrash) : Prop :=
  (crash = .emptyBatch ∧ seqId ≠ -1) ∨
    (crash = .ggmlAssert ∧ ∃ layer ∈ shape.layers, layer.v.blckSize ≠ 1)

/-- Values in blocks of two elements of four bytes, and bytes that say they are transposed. -/
example : stateRead { layers := [⟨⟨1, 2, 1, 2⟩, ⟨2, 4, 2, 2⟩⟩], vTrans := false } (KvCache.init 3)
    KvTensors.cleared (-1) ([1, 0, 0, 0] ++ [0, 0, 0, 0, 0, 0, 0, 0] ++ [1, 0, 0, 0, 1, 0, 0, 0] ++
      [1, 0, 0, 0, 4, 0, 0, 0, 0, 0, 0, 0] ++ [7, 7, 7, 7] ++
      [2, 0, 0, 0, 4, 0, 0, 0, 2, 0, 0, 0] ++ [8, 8, 8, 8] ++ [9, 9, 9, 9]) =
      .error .ggmlAssert := rfl

end MineGPT.Kv
