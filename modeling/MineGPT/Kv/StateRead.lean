import MineGPT.Kv.State

/-!
# What is saved is restored

The ranges that `state_write` walks are the saved cells in order, and reading takes
back what was written for each of them.
-/

set_option autoImplicit false

namespace MineGPT.Kv

open MineGPT.Lib MineGPT.Lib.ByteString MineGPT.Lib.Reader MineGPT.Lib.Memory
open MineGPT.Lib.Places

/-! ## The ranges -/

def rangeCells (ranges : List (Nat × Nat)) : List Nat :=
  ranges.flatMap fun range => List.range' range.1 (range.2 - range.1)

structure RangeScan.Passed (size : Nat) (saved : Nat → Bool) (n : Nat) (scan : RangeScan) :
    Prop where
  count : scan.cellCount = ((List.range n).filter saved).length
  cells : rangeCells scan.cellRanges ++ (if scan.cellRangeBegin = size then []
    else List.range' scan.cellRangeBegin (n - scan.cellRangeBegin)) = (List.range n).filter saved
  inside : scan.cellRangeBegin = size ∨ scan.cellRangeBegin ≤ n

theorem rangeCells_concat (ranges : List (Nat × Nat)) (first second : Nat) :
    rangeCells (ranges ++ [(first, second)]) =
      rangeCells ranges ++ List.range' first (second - first) := by
  simp [rangeCells]

theorem RangeScan.Passed.step {size n : Nat} {saved : Nat → Bool} {scan : RangeScan}
    (passed : scan.Passed size saved n) (less : n < size) :
    (scan.step size saved n).Passed size saved (n + 1) := by
  obtain ⟨count, cells, inside⟩ := passed
  unfold RangeScan.step
  by_cases here : saved n = true
  · rw [if_pos here]
    have filtered : (List.range (n + 1)).filter saved = (List.range n).filter saved ++ [n] := by
      rw [List.range_succ, List.filter_append, List.filter_singleton, here, cond_true]
    refine ⟨?_, ?_, ?_⟩
    · rw [filtered, List.length_append, ← count]
      rfl
    · dsimp only
      rw [filtered, ← cells]
      split_ifs with begins
      · omega
      · rw [List.append_nil, show n + 1 - n = 1 by omega]
        rfl
      · rw [show n + 1 - scan.cellRangeBegin = n - scan.cellRangeBegin + 1 by omega,
          List.range'_concat, List.append_assoc, Nat.one_mul,
          Nat.add_sub_cancel' (by omega)]
    · dsimp only
      split_ifs <;> omega
  · have filtered : (List.range (n + 1)).filter saved = (List.range n).filter saved := by
      rw [List.range_succ, List.filter_append, List.filter_singleton]
      simp [here]
    rw [if_neg here]
    by_cases begins : scan.cellRangeBegin = size
    · rw [if_neg (not_not.mpr begins)]
      rw [if_pos begins] at cells
      exact ⟨filtered ▸ count, by rw [if_pos begins, filtered]; exact cells, Or.inl begins⟩
    · rw [if_pos begins]
      rw [if_neg begins] at cells
      refine ⟨filtered ▸ count, ?_, Or.inl rfl⟩
      dsimp only
      rw [if_pos rfl, List.append_nil, rangeCells_concat, filtered]
      exact cells

theorem cellRanges_spec (size : Nat) (saved : Nat → Bool) :
    (cellRanges size saved).1 = ((List.range size).filter saved).length ∧
      rangeCells (cellRanges size saved).2 = (List.range size).filter saved := by
  have all : ∀ n ≤ size,
      ((List.range n).foldl (RangeScan.step size saved) ⟨0, size, []⟩).Passed size saved n := by
    intro n
    induction n with
    | zero => exact fun _ => ⟨rfl, by simp [rangeCells], Or.inl rfl⟩
    | succ n ih =>
        intro less
        rw [List.range_succ, List.foldl_append]
        exact (ih (by omega)).step less
  obtain ⟨count, cells, inside⟩ := all size (Nat.le_refl size)
  unfold cellRanges
  refine ⟨count, ?_⟩
  dsimp only
  split_ifs with ends
  · rw [if_neg ends] at cells
    rw [rangeCells_concat]
    exact cells
  · rw [if_pos (not_not.mp ends), List.append_nil] at cells
    exact cells

theorem length_rangeCells (ranges : List (Nat × Nat)) :
    (rangeCells ranges).length = (ranges.map fun range => range.2 - range.1).sum := by
  simp [rangeCells, List.length_flatMap]

theorem forRanges_eq (ranges : List (Nat × Nat)) (write : Nat → Bytes) :
    forRanges ranges write = (rangeCells ranges).flatMap write := by
  rw [forRanges, rangeCells, List.flatMap_assoc]

def units (mem : Nat → UInt8) (size offset : Nat) (cells : List Nat) : Bytes :=
  cells.flatMap fun i => unit mem size (offset + i)

theorem units_eq (mem : Nat → UInt8) (size offset : Nat) (cells : List Nat) :
    units mem size offset cells =
      (List.range cells.length).flatMap fun k => unit mem size (offset + cells.getD k 0) := by
  have listed : cells = (List.range cells.length).map fun k => cells.getD k 0 := by
    apply List.ext_getElem
    · simp
    · intro k less _
      rw [List.getElem_map, List.getElem_range, List.getD_eq_getElem _ _ less]
  rw [units]
  conv_lhs => rw [listed]
  rw [List.flatMap_map]

@[simp] theorem length_units (mem : Nat → UInt8) (size offset : Nat) (cells : List Nat) :
    (units mem size offset cells).length = cells.length * size := by
  rw [units_eq]
  exact length_pieces fun k _ => length_unit ..

theorem store_nil (mem : Nat → UInt8) (offset : Nat) : store mem offset [] = mem := by
  funext address
  simp [store]

theorem writeRanges_eq {ranges : List (Nat × Nat)} {sourceSize nbytes first sizeRow : Nat}
    (bound : ∀ i ∈ rangeCells ranges, i < sourceSize) {offset : Nat → Nat}
    (placed : ∀ i < sourceSize, offset i = (first + i) * sizeRow)
    (inside : (first + sourceSize) * sizeRow ≤ nbytes) (mem : Nat → UInt8) :
    writeRanges ranges nbytes mem offset sizeRow =
      some (units mem sizeRow first (rangeCells ranges)) := by
  rw [units, rangeCells, List.flatMap_assoc]
  refine writeAll_eq fun range member => ?_
  rcases Nat.eq_zero_or_pos (range.2 - range.1) with none | some
  · rw [none, Nat.zero_mul, tensorGet, if_pos (Or.inl rfl)]
    rfl
  · have known : ∀ i, range.1 ≤ i → i < range.1 + (range.2 - range.1) → i < sourceSize :=
      fun i low high => bound i (List.mem_flatMap.mpr ⟨range, member,
        List.mem_range'_1.mpr ⟨low, high⟩⟩)
    have last := known (range.1 + (range.2 - range.1) - 1) (by omega) (by omega)
    have ends : (first + range.1) * sizeRow + (range.2 - range.1) * sizeRow ≤ nbytes := by
      rw [← Nat.add_mul]
      exact (Nat.mul_le_mul_right sizeRow (by omega)).trans inside
    rw [placed _ (known _ (Nat.le_refl _) (by omega)), tensorGet, if_pos (Or.inr ends), load_units,
      ← List.map_add_range', List.flatMap_map]

/-! ## The layers -/

structure KvTensorType.Fits (tensor : KvTensorType) : Prop where
  type : Int32 tensor.type
  sizeRow : tensor.sizeRow < 256 ^ 8
  typeSize : tensor.typeSize < 256 ^ 4
  nEmbdGqa : tensor.nEmbdGqa < 256 ^ 4

theorem KvTensorType.rows_inside {tensor : KvTensorType} {size : Nat}
    (counted : tensor.nEmbdGqa * size < 2 ^ 32) : size * tensor.sizeRow ≤ tensor.nbytes size := by
  rw [nbytes, sizeRow, Nat.mod_eq_of_lt counted]
  calc size * (tensor.typeSize * tensor.nEmbdGqa / tensor.blckSize)
      ≤ size * (tensor.typeSize * tensor.nEmbdGqa) / tensor.blckSize :=
        Nat.mul_div_le_mul_div_assoc ..
    _ = tensor.ggmlRowSize (tensor.nEmbdGqa * size) := by
        rw [ggmlRowSize, Nat.mul_comm size, Nat.mul_assoc]

theorem KvTensorType.nbytes_of_blckSize {tensor : KvTensorType} {size : Nat}
    (counted : tensor.nEmbdGqa * size < 2 ^ 32) (single : tensor.blckSize = 1) :
    tensor.nbytes size = tensor.nEmbdGqa * size * tensor.typeSize := by
  rw [nbytes, ggmlRowSize, Nat.mod_eq_of_lt counted, single, Nat.div_one, Nat.mul_comm]

theorem yields_tensorSet {nbytes offset : Nat} {mem : Nat → UInt8} {data : Bytes}
    (inside : offset + data.length ≤ nbytes) (rest : Bytes) :
    Yields (tensorSet nbytes mem offset data) rest (store mem offset data) rest := by
  rw [tensorSet, if_pos (Or.inr inside)]
  exact yields_pure.mpr ⟨rfl, rfl⟩

section Layers

variable {ranges : List (Nat × Nat)} {kv : KvCache}
  (bound : ∀ i ∈ rangeCells ranges, i < kv.size) (source : Nat → UInt8)

section Typed

variable {tensor : KvTensorType}

include bound in
theorem writeTyped_eq (counted : tensor.nEmbdGqa * kv.size < 2 ^ 32) :
    writeTyped kv ranges tensor source = some (writeInt32 tensor.type ++
      leBytes 8 tensor.sizeRow ++ units source tensor.sizeRow 0 (rangeCells ranges)) := by
  have rows := @writeRanges_eq ranges kv.size (tensor.nbytes kv.size) 0 tensor.sizeRow bound
    (fun first => first * tensor.sizeRow) (fun i _ => by rw [Nat.zero_add])
    (by rw [Nat.zero_add]; exact KvTensorType.rows_inside counted) source
  rw [writeTyped, rows]
  rfl

variable {head size : Nat} {cells : List Nat}

theorem yields_readTyped (fits : tensor.Fits) (counted : tensor.nEmbdGqa * size < 2 ^ 32)
    (inside : head + cells.length ≤ size) (target : Nat → UInt8) (rest : Bytes) :
    Yields (readTyped head size cells.length tensor target)
      (writeInt32 tensor.type ++ leBytes 8 tensor.sizeRow ++ units source tensor.sizeRow 0 cells ++
        rest)
      (true, store target (head * tensor.sizeRow) (units source tensor.sizeRow 0 cells)) rest := by
  rw [List.append_assoc, List.append_assoc]
  refine (yields_int32 fits.type _).bind ?_
  rw [if_neg (not_not.mpr rfl)]
  refine (yields_uint fits.sizeRow _).bind ?_
  rw [if_neg (not_not.mpr rfl)]
  have length := length_units source tensor.sizeRow 0 cells
  by_cases none : cells.length = 0
  · rw [if_pos none, List.length_eq_zero_iff.mp none]
    simp [units, store_nil]
  · rw [if_neg none]
    refine (yields_take length rest).bind ((yields_tensorSet ?_ rest).bind
      (yields_pure.mpr ⟨rfl, rfl⟩))
    rw [length, ← Nat.add_mul]
    exact (Nat.mul_le_mul_right _ inside).trans (KvTensorType.rows_inside counted)

end Typed

section Transposed

variable {sourceSize head size : Nat} {cells : List Nat}

def storeTransposed (head size sourceSize vSizeEl : Nat) (source : Nat → UInt8)
    (cells : List Nat) : Nat → Nat → (Nat → UInt8) → (Nat → UInt8)
  | 0, _, mem => mem
  | n + 1, j, mem =>
    storeTransposed head size sourceSize vSizeEl source cells n (j + 1)
      (store mem ((head + j * size) % 2 ^ 32 * vSizeEl)
        (units source vSizeEl (j * sourceSize) cells))

theorem element_inside {count : Nat} (inside : head + count ≤ size) {j rows : Nat}
    (row : j < rows) (vSizeEl : Nat) :
    (head + j * size) % 2 ^ 32 * vSizeEl + count * vSizeEl ≤ rows * size * vSizeEl := by
  have below : (head + j * size) % 2 ^ 32 ≤ head + j * size := Nat.mod_le ..
  have above : (j + 1) * size ≤ rows * size := Nat.mul_le_mul_right size row
  rw [Nat.succ_mul] at above
  rw [← Nat.add_mul]
  exact Nat.mul_le_mul_right vSizeEl (by omega)

theorem yields_readTransposed {nbytes vSizeEl rows : Nat} (enough : rows * size * vSizeEl ≤ nbytes)
    (inside : head + cells.length ≤ size) (rest : Bytes) : ∀ (n j : Nat) (_ : j + n ≤ rows)
    (target : Nat → UInt8),
    Yields (readTransposed head size cells.length nbytes vSizeEl n j target)
      ((List.range' j n).flatMap (fun j => units source vSizeEl (j * sourceSize) cells) ++ rest)
      (storeTransposed head size sourceSize vSizeEl source cells n j target) rest := by
  intro n
  induction n with
  | zero => exact fun j _ target => yields_pure.mpr ⟨rfl, rfl⟩
  | succ n ih =>
      intro j few target
      rw [List.range'_succ, List.flatMap_cons, List.append_assoc, storeTransposed]
      refine (yields_take (length_units ..) _).bind ((yields_tensorSet ?_ _).bind
        (ih (j + 1) (by omega) _))
      rw [length_units]
      exact (element_inside inside (by omega) vSizeEl).trans enough

theorem storeTransposed_none (vSizeEl : Nat) : ∀ (n j : Nat) (target : Nat → UInt8),
    storeTransposed head size sourceSize vSizeEl source [] n j target = target := by
  intro n
  induction n with
  | zero => exact fun _ _ => rfl
  | succ n ih =>
      intro j target
      rw [storeTransposed, ih, units, List.flatMap_nil, store_nil]

variable {layer : KvLayer} (single : layer.v.blckSize = 1)

include bound single in
theorem writeValuesTrans_eq (counted : layer.v.nEmbdGqa * kv.size < 2 ^ 32)
    (addressable : layer.v.nbytes kv.size ≤ 2 ^ 32) :
    writeValuesTrans kv ranges layer source = some (writeInt32 layer.v.type ++
      leBytes 4 layer.v.typeSize ++ leBytes 4 layer.v.nEmbdGqa ++
        (List.range' 0 layer.v.nEmbdGqa).flatMap
          fun j => units source layer.v.typeSize (j * kv.size) (rangeCells ranges)) := by
  have nbytes := KvTensorType.nbytes_of_blckSize counted single
  have rows : writeAll (fun j => writeRanges ranges (layer.v.nbytes kv.size) source
        (fun first => (first + j * kv.size) * layer.v.typeSize % 2 ^ 32) layer.v.typeSize)
        (List.range layer.v.nEmbdGqa) = some ((List.range layer.v.nEmbdGqa).flatMap
          fun j => units source layer.v.typeSize (j * kv.size) (rangeCells ranges)) := by
    refine writeAll_eq fun j member => ?_
    have row : (j + 1) * kv.size ≤ layer.v.nEmbdGqa * kv.size :=
      Nat.mul_le_mul_right kv.size (List.mem_range.mp member)
    rw [Nat.succ_mul] at row
    refine writeRanges_eq bound (fun i less => ?_) ?_ source
    · rw [Nat.add_comm i]
      have ends : (j * kv.size + i + 1) * layer.v.typeSize ≤ 2 ^ 32 :=
        (Nat.mul_le_mul_right _ (by omega)).trans (nbytes ▸ addressable)
      rw [Nat.succ_mul] at ends
      apply Nat.mod_eq_of_lt
      rcases Nat.eq_zero_or_pos layer.v.typeSize with none | some
      · rw [none, Nat.mul_zero]
        exact Nat.two_pow_pos 32
      · omega
    · rw [nbytes]
      exact Nat.mul_le_mul_right _ row
  rw [writeValuesTrans, rows, List.range_eq_range']
  rfl

include single in
theorem yields_readValuesTrans (fits : layer.v.Fits) (counted : layer.v.nEmbdGqa * size < 2 ^ 32)
    (inside : head + cells.length ≤ size) (target : Nat → UInt8) (rest : Bytes) :
    Yields (readValuesTrans head size cells.length layer target)
      (writeInt32 layer.v.type ++ leBytes 4 layer.v.typeSize ++ leBytes 4 layer.v.nEmbdGqa ++
        (List.range' 0 layer.v.nEmbdGqa).flatMap
          (fun j => units source layer.v.typeSize (j * sourceSize) cells) ++ rest)
      (true, storeTransposed head size sourceSize layer.v.typeSize source cells layer.v.nEmbdGqa 0
        target) rest := by
  rw [List.append_assoc, List.append_assoc, List.append_assoc]
  refine (yields_int32 fits.type _).bind ?_
  rw [if_neg (not_not.mpr rfl)]
  refine (yields_uint fits.typeSize _).bind ?_
  rw [if_neg (not_not.mpr rfl)]
  refine (yields_uint fits.nEmbdGqa _).bind ?_
  rw [if_neg (not_not.mpr rfl)]
  by_cases none : cells.length = 0
  · rw [if_pos none, List.length_eq_zero_iff.mp none, storeTransposed_none]
    simp [units]
  · rw [if_neg none]
    have nbytes := KvTensorType.nbytes_of_blckSize counted single
    exact (yields_readTransposed source nbytes.ge inside rest layer.v.nEmbdGqa 0
      (Nat.zero_add _).le target).bind (yields_pure.mpr ⟨rfl, rfl⟩)

end Transposed

end Layers

def updateLayers (change : Nat → KvLayer → (Nat → UInt8) → (Nat → UInt8)) :
    Nat → List KvLayer → (Nat → Nat → UInt8) → (Nat → Nat → UInt8)
  | _, [], mems => mems
  | il, layer :: rest, mems =>
    updateLayers change (il + 1) rest (Function.update mems il (change il layer (mems il)))

theorem updateLayers_at (change : Nat → KvLayer → (Nat → UInt8) → (Nat → UInt8)) :
    ∀ (layers : List KvLayer) (first k : Nat) (inside : k < layers.length)
      (mems : Nat → Nat → UInt8), updateLayers change first layers mems (first + k) =
        change (first + k) layers[k] (mems (first + k)) := by
  have before : ∀ (layers : List KvLayer) (first i : Nat) (mems : Nat → Nat → UInt8), i < first →
      updateLayers change first layers mems i = mems i := by
    intro layers
    induction layers with
    | nil => exact fun _ _ _ _ => rfl
    | cons layer rest ih =>
        intro first i mems less
        rw [updateLayers, ih _ _ _ (by omega), Function.update_of_ne (by omega)]
  intro layers
  induction layers with
  | nil => exact fun _ k inside => absurd inside (Nat.not_lt_zero k)
  | cons layer rest ih =>
      intro first k inside mems
      rw [updateLayers]
      cases k with
      | zero =>
          exact (before rest (first + 1) first _ (Nat.lt_succ_self first)).trans
            (Function.update_self ..)
      | succ k =>
          have later := ih (first + 1) k (by simpa using inside)
            (Function.update mems first (change first layer (mems first)))
          rw [show first + (k + 1) = first + 1 + k by omega, later,
            Function.update_of_ne (by omega), List.getElem_cons_succ]

theorem writeLayers_some {write : KvLayer → (Nat → UInt8) → Option Bytes}
    (sources : Nat → Nat → UInt8) : ∀ (layers : List KvLayer)
    (_ : ∀ layer ∈ layers, ∀ il, ∃ bytes, write layer (sources il) = some bytes) (il : Nat),
    ∃ bytes, writeLayers write il layers sources = some bytes := by
  intro layers
  induction layers with
  | nil => exact fun _ _ => ⟨[], rfl⟩
  | cons layer rest ih =>
      intro each il
      obtain ⟨here, written⟩ := each layer (by simp) il
      obtain ⟨later, written'⟩ := ih (fun other member => each other (by simp [member])) (il + 1)
      refine ⟨here ++ later, ?_⟩
      rw [writeLayers, written, Option.bind_eq_bind, Option.bind_some, written']
      rfl

theorem yields_readLayers {read : KvLayer → (Nat → UInt8) → StateReader (Bool × (Nat → UInt8))}
    {write : KvLayer → (Nat → UInt8) → Option Bytes} (sources : Nat → Nat → UInt8)
    {change : Nat → KvLayer → (Nat → UInt8) → (Nat → UInt8)} : ∀ (layers : List KvLayer)
    (_ : ∀ layer ∈ layers, ∀ il bytes, write layer (sources il) = some bytes → ∀ target rest,
      Yields (read layer target) (bytes ++ rest) (true, change il layer target) rest)
    (il : Nat) (bytes : Bytes) (_ : writeLayers write il layers sources = some bytes)
    (mems : Nat → Nat → UInt8) (rest : Bytes),
    Yields (readLayers read il layers mems) (bytes ++ rest)
      (true, updateLayers change il layers mems) rest := by
  intro layers
  induction layers with
  | nil =>
      intro _ il bytes written mems rest
      obtain rfl := Option.some.inj written
      exact yields_pure.mpr ⟨rfl, rfl⟩
  | cons layer later ih =>
      intro each il bytes written mems rest
      obtain ⟨here, first, written⟩ := Option.bind_eq_some_iff.mp written
      obtain ⟨others, second, written⟩ := Option.bind_eq_some_iff.mp written
      obtain rfl := Option.some.inj written
      rw [List.append_assoc]
      exact (each layer (by simp) il here first (mems il) _).bind
        (ih (fun other member => each other (by simp [member])) (il + 1) others second _ rest)

/-! ## The rows -/

/-- What the tensors hold for a cell: the key of each layer, and its value or the elements
of the value. -/
def rowOf (shape : KvShape) (size : Nat) (tensors : KvTensors) (i : Nat) :
    List (Bytes × List Bytes) :=
  shape.layers.mapIdx fun il layer =>
    (unit (tensors.k il) layer.k.sizeRow i,
      if shape.vTrans then
        (List.range layer.v.nEmbdGqa).map fun j => unit (tensors.v il) layer.v.typeSize (j * size + i)
      else [unit (tensors.v il) layer.v.sizeRow i])

def restored (shape : KvShape) (head size sourceSize : Nat) (source : KvTensors)
    (cells : List Nat) (target : KvTensors) : KvTensors where
  k := updateLayers (fun il layer mem =>
    store mem (head * layer.k.sizeRow) (units (source.k il) layer.k.sizeRow 0 cells))
    0 shape.layers target.k
  v := updateLayers (fun il layer mem =>
    if shape.vTrans then
      storeTransposed head size sourceSize layer.v.typeSize (source.v il) cells layer.v.nEmbdGqa 0 mem
    else store mem (head * layer.v.sizeRow) (units (source.v il) layer.v.sizeRow 0 cells))
    0 shape.layers target.v

section Rows

variable {head size sourceSize : Nat} {cells : List Nat} (inside : head + cells.length ≤ size)
  (source target : Nat → UInt8)

theorem unit_units (sizeRow offset i : Nat) (first : Nat) :
    unit (store target (first * sizeRow) (units source sizeRow offset cells)) sizeRow i =
      if first ≤ i ∧ i < first + cells.length then
        unit source sizeRow (offset + cells.getD (i - first) 0)
      else unit target sizeRow i := by
  rw [units_eq]
  exact unit_store (fun k _ => length_unit ..) i

include inside

theorem unit_storeTransposed (vSizeEl : Nat) {u : Nat} (less : u < size) : ∀ (n j : Nat)
    (target : Nat → UInt8) (_ : (j + n) * size ≤ 2 ^ 32) (j' : Nat),
    unit (storeTransposed head size sourceSize vSizeEl source cells n j target) vSizeEl
        (j' * size + u) =
      if (j ≤ j' ∧ j' < j + n) ∧ head ≤ u ∧ u < head + cells.length then
        unit source vSizeEl (j' * sourceSize + cells.getD (u - head) 0)
      else unit target vSizeEl (j' * size + u) := by
  intro n
  induction n with
  | zero =>
      intro j target _ j'
      rw [if_neg (by omega)]
      rfl
  | succ n ih =>
      intro j target few j'
      have row : (j + 1) * size ≤ (j + (n + 1)) * size := Nat.mul_le_mul_right size (by omega)
      rw [storeTransposed, ih (j + 1) _ (by rwa [show j + 1 + n = j + (n + 1) by omega]) j']
      rcases Nat.eq_zero_or_pos cells.length with none | some
      · rw [if_neg (by omega), if_neg (by omega), unit_units, if_neg (by omega)]
      rw [Nat.succ_mul] at row
      rw [Nat.mod_eq_of_lt (show head + j * size < 2 ^ 32 by omega), unit_units]
      rcases Nat.lt_trichotomy j' j with early | rfl | late
      · have above : (j' + 1) * size ≤ j * size := Nat.mul_le_mul_right size early
        rw [Nat.succ_mul] at above
        rw [if_neg (by omega), if_neg (by omega), if_neg (by omega)]
      · rw [if_neg (by omega)]
        by_cases held : head ≤ u ∧ u < head + cells.length
        · rw [if_pos (by omega), if_pos (by omega),
            show j' * size + u - (head + j' * size) = u - head by omega]
        · rw [if_neg (by omega), if_neg (by omega)]
      · have below : (j + 1) * size ≤ j' * size := Nat.mul_le_mul_right size late
        rw [Nat.succ_mul] at below
        by_cases held : (j + 1 ≤ j' ∧ j' < j + 1 + n) ∧ head ≤ u ∧ u < head + cells.length
        · rw [if_pos held, if_pos (by omega)]
        · rw [if_neg held, if_neg (by omega), if_neg (by omega)]

end Rows

section Restored

variable {shape : KvShape} {head size sourceSize : Nat} {cells : List Nat}
  (source target : KvTensors) {il : Nat} (known : il < shape.layers.length)

theorem restored_k : (restored shape head size sourceSize source cells target).k il =
    store (target.k il) (head * shape.layers[il].k.sizeRow)
      (units (source.k il) shape.layers[il].k.sizeRow 0 cells) := by
  have here := updateLayers_at (fun il layer mem => store mem (head * layer.k.sizeRow)
    (units (source.k il) layer.k.sizeRow 0 cells)) shape.layers 0 il known target.k
  rwa [Nat.zero_add] at here

theorem restored_v : (restored shape head size sourceSize source cells target).v il =
    if shape.vTrans then
      storeTransposed head size sourceSize shape.layers[il].v.typeSize (source.v il) cells
        shape.layers[il].v.nEmbdGqa 0 (target.v il)
    else store (target.v il) (head * shape.layers[il].v.sizeRow)
      (units (source.v il) shape.layers[il].v.sizeRow 0 cells) := by
  have here := updateLayers_at (fun il layer mem =>
    if shape.vTrans then
      storeTransposed head size sourceSize layer.v.typeSize (source.v il) cells layer.v.nEmbdGqa 0 mem
    else store mem (head * layer.v.sizeRow) (units (source.v il) layer.v.sizeRow 0 cells))
    shape.layers 0 il known target.v
  rwa [Nat.zero_add] at here

theorem value_restored (inside : head + cells.length ≤ size)
    (addressable : shape.vTrans → ∀ layer ∈ shape.layers, layer.v.nEmbdGqa * size ≤ 2 ^ 32)
    {i : Nat} (less : i < size) (trans : shape.vTrans) {j : Nat}
    (row : j < shape.layers[il].v.nEmbdGqa) :
    unit ((restored shape head size sourceSize source cells target).v il)
        shape.layers[il].v.typeSize (j * size + i) =
      if head ≤ i ∧ i < head + cells.length then
        unit (source.v il) shape.layers[il].v.typeSize (j * sourceSize + cells.getD (i - head) 0)
      else unit (target.v il) shape.layers[il].v.typeSize (j * size + i) := by
  have few := addressable trans _ (List.getElem_mem known)
  rw [restored_v source target known, if_pos trans,
    unit_storeTransposed inside (source.v il) _ less _ 0 _ (by rwa [Nat.zero_add]) j]
  refine if_congr ?_ rfl rfl
  omega

theorem rowOf_restored (inside : head + cells.length ≤ size)
    (addressable : shape.vTrans → ∀ layer ∈ shape.layers, layer.v.nEmbdGqa * size ≤ 2 ^ 32)
    {i : Nat} (less : i < size) :
    rowOf shape size (restored shape head size sourceSize source cells target) i =
      if head ≤ i ∧ i < head + cells.length then
        rowOf shape sourceSize source (cells.getD (i - head) 0)
      else rowOf shape size target i := by
  have read : rowOf shape size (restored shape head size sourceSize source cells target) i =
      shape.layers.mapIdx fun il layer =>
        (if head ≤ i ∧ i < head + cells.length then
            unit (source.k il) layer.k.sizeRow (cells.getD (i - head) 0)
          else unit (target.k il) layer.k.sizeRow i,
          if shape.vTrans then
            (List.range layer.v.nEmbdGqa).map fun j =>
              if head ≤ i ∧ i < head + cells.length then
                unit (source.v il) layer.v.typeSize (j * sourceSize + cells.getD (i - head) 0)
              else unit (target.v il) layer.v.typeSize (j * size + i)
          else
            [if head ≤ i ∧ i < head + cells.length then
              unit (source.v il) layer.v.sizeRow (cells.getD (i - head) 0)
            else unit (target.v il) layer.v.sizeRow i]) := by
    refine List.mapIdx_eq_mapIdx_iff.mpr fun il known => Prod.ext ?_ ?_
    · dsimp only
      rw [restored_k source target known, unit_units, Nat.zero_add]
    · dsimp only
      by_cases trans : shape.vTrans = true
      · rw [if_pos trans, if_pos trans]
        exact List.map_congr_left fun j row =>
          value_restored source target known inside addressable less trans (List.mem_range.mp row)
      · rw [if_neg trans, if_neg trans, restored_v source target known, if_neg trans, unit_units,
          Nat.zero_add]
  rw [read]
  by_cases held : head ≤ i ∧ i < head + cells.length
  · simp only [if_pos held]
    rfl
  · simp only [if_neg held]
    rfl

end Restored

/-! ## The data -/

/-- What can be written in the integers of the format; a context has transposed values only
of a type that is not quantized. -/
structure KvShape.Storable (shape : KvShape) : Prop where
  layers : shape.layers.length < 256 ^ 4
  k : ∀ layer ∈ shape.layers, layer.k.Fits
  v : ∀ layer ∈ shape.layers, layer.v.Fits
  single : shape.vTrans → ∀ layer ∈ shape.layers, layer.v.blckSize = 1

/-- The elements of each tensor can be counted in a `uint32_t`. -/
def KvShape.Counted (shape : KvShape) (size : Nat) : Prop :=
  ∀ layer ∈ shape.layers, layer.k.nEmbdGqa * size < 2 ^ 32 ∧ layer.v.nEmbdGqa * size < 2 ^ 32

/-- The offset of each element of transposed values is a `uint32_t`. -/
structure KvShape.Addressable (shape : KvShape) (size : Nat) : Prop where
  cells : size < 2 ^ 32
  counted : shape.Counted size
  transposed : shape.vTrans → ∀ layer ∈ shape.layers, layer.v.nbytes size ≤ 2 ^ 32

section Data

variable {shape : KvShape} (storable : shape.Storable) {kv : KvCache}
  (addressable : shape.Addressable kv.size) {ranges : List (Nat × Nat)}
  (bound : ∀ i ∈ rangeCells ranges, i < kv.size) (source : KvTensors)

include storable addressable bound

theorem stateWriteData_some : ∃ data, stateWriteData shape kv source ranges = some data := by
  have keys : ∃ keys, writeLayers (writeKeys kv ranges) 0 shape.layers source.k = some keys :=
    writeLayers_some source.k shape.layers (fun layer member il =>
      ⟨_, writeTyped_eq bound (source.k il) (addressable.counted layer member).1⟩) 0
  have values : ∃ values, writeLayers (if shape.vTrans then writeValuesTrans kv ranges
      else writeValues kv ranges) 0 shape.layers source.v = some values := by
    refine writeLayers_some source.v shape.layers (fun layer member il => ?_) 0
    have counted := (addressable.counted layer member).2
    split_ifs with trans
    · exact ⟨_, writeValuesTrans_eq bound (source.v il) (storable.single trans layer member)
        counted (addressable.transposed trans layer member)⟩
    · exact ⟨_, writeTyped_eq bound (source.v il) counted⟩
  obtain ⟨keys, written⟩ := keys
  obtain ⟨values, written'⟩ := values
  exact ⟨_, Option.bind_eq_some_iff.mpr ⟨keys, written,
    Option.bind_eq_some_iff.mpr ⟨values, written', rfl⟩⟩⟩

theorem yields_readData {data : Bytes} (written : stateWriteData shape kv source ranges = some data)
    {head size : Nat} (counted : shape.Counted size)
    (inside : head + (rangeCells ranges).length ≤ size) (target : KvTensors) (rest : Bytes) :
    Yields (stateReadData head size (rangeCells ranges).length shape target) (data ++ rest)
      (true, restored shape head size kv.size source (rangeCells ranges) target) rest := by
  obtain ⟨keys, writtenKeys, written⟩ := Option.bind_eq_some_iff.mp written
  obtain ⟨values, writtenValues, written⟩ := Option.bind_eq_some_iff.mp written
  obtain rfl := Option.some.inj written
  have readKeys : ∀ rest, Yields
      (readLayers (readKeys head size (rangeCells ranges).length) 0 shape.layers target.k)
      (keys ++ rest)
      (true, (restored shape head size kv.size source (rangeCells ranges) target).k) rest :=
    yields_readLayers source.k shape.layers (fun layer member il bytes same target rest => by
      rw [writeKeys, writeTyped_eq bound _ (addressable.counted layer member).1] at same
      obtain rfl := Option.some.inj same
      exact yields_readTyped _ (storable.k layer member) (counted layer member).1 inside target
        rest) 0 keys writtenKeys target.k
  have flag : (if shape.vTrans then 1 else 0) < 256 ^ 4 := by split_ifs <;> omega
  simp only [List.append_assoc]
  refine (yields_uint flag _).bind ((yields_uint storable.layers _).bind ?_)
  rw [if_neg (not_not.mpr rfl), if_neg (by omega),
    if_neg (by by_cases trans : shape.vTrans = true <;> simp [trans])]
  refine (readKeys _).bind ?_
  dsimp only
  rw [show (!true) = false from rfl, if_neg Bool.false_ne_true]
  by_cases trans : shape.vTrans = true
  · rw [if_pos trans] at writtenValues
    rw [if_pos trans, if_neg Nat.one_ne_zero]
    refine (yields_readLayers source.v shape.layers (fun layer member il bytes same target rest => by
      have single := storable.single trans layer member
      rw [writeValuesTrans_eq bound _ single (addressable.counted layer member).2
        (addressable.transposed trans layer member)] at same
      obtain rfl := Option.some.inj same
      exact yields_readValuesTrans _ single (storable.v layer member) (counted layer member).2
        inside target rest) 0 values writtenValues target.v rest).bind (yields_pure.mpr ⟨?_, rfl⟩)
    simp only [restored, if_pos trans]
  · rw [if_neg trans] at writtenValues
    rw [if_neg trans, if_pos rfl]
    refine (yields_readLayers source.v shape.layers (fun layer member il bytes same target rest => by
      rw [writeValues, writeTyped_eq bound _ (addressable.counted layer member).2] at same
      obtain rfl := Option.some.inj same
      exact yields_readTyped _ (storable.v layer member) (counted layer member).2 inside target
        rest) 0 values writtenValues target.v rest).bind (yields_pure.mpr ⟨?_, rfl⟩)
    simp only [restored, if_neg trans]

end Data

end MineGPT.Kv
