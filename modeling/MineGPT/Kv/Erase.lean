import MineGPT.Kv.Decode

/-!
# A failed decode of a recurrent model

When the computation of a micro-batch fails, the slot restorer of a recurrent model
erases the cell of the sequence.  Nothing else in a decode loses the cell, and
once it is erased every decode that comes to it ends with an assertion that fails.
-/

set_option autoImplicit false

namespace MineGPT.Kv

/-- The checks of `decode` on its batch pass, and the output buffer is there. -/
structure Admitted (model : DecodeModel) (cparams : CParams) (oracle : DecodeOracle)
    (tokens : List Int) : Prop where
  nonempty : tokens ≠ []
  valid : ∀ token ∈ tokens, 0 ≤ token ∧ token < model.nTokens
  nBatch : tokens.length ≤ cparams.nBatch
  nUbatch : cparams.causalAttn = true ∨ tokens.length ≤ cparams.nUbatch
  reserved : oracle.outputReserved = true

def ComputationFails (cparams : CParams) (oracle : DecodeOracle) (tokens : List Int) : Prop :=
  ∃ index, index * cparams.nUbatch < tokens.length ∧ oracle.computeStatus index ≠ .success

/-! ## The checks -/

theorem length_batchAllocr (tokens : List Int) (p0 : Int) :
    (batchAllocr tokens p0).length = tokens.length := by
  simp [batchAllocr]

theorem invalid_batchAllocr_iff (nTokens : Nat) (tokens : List Int) (p0 : Int) :
    ((batchAllocr tokens p0).any fun column =>
        column.token < 0 || (nTokens : Int) ≤ column.token) = true ↔
      ¬ ∀ token ∈ tokens, 0 ≤ token ∧ token < nTokens := by
  simp only [batchAllocr, List.any_eq_true, List.mem_mapIdx, Bool.or_eq_true, decide_eq_true_eq]
  push Not
  constructor
  · rintro ⟨column, ⟨i, inside, rfl⟩, wrong⟩
    refine ⟨tokens[i], List.getElem_mem _, fun low => ?_⟩
    exact wrong.resolve_left (Int.not_lt.mpr low)
  · rintro ⟨token, member, wrong⟩
    obtain ⟨i, inside, rfl⟩ := List.mem_iff_getElem.mp member
    refine ⟨_, ⟨i, inside, rfl⟩, ?_⟩
    by_cases low : 0 ≤ tokens[i]
    · exact Or.inr (wrong low)
    · exact Or.inl (Int.not_le.mp low)

theorem decode_of_admitted {model : DecodeModel} {cparams : CParams} {oracle : DecodeOracle}
    {tokens : List Int} (admitted : Admitted model cparams oracle tokens) (kv : KvCache) :
    decode model cparams oracle kv tokens =
      (if model.recurrent then decodeRecurrent else decodeUbatches) model.causalAttn
        cparams.nUbatch oracle.computeStatus tokens.length 0 kv (SlotRestorer.init kv)
        (batchAllocr tokens (kv.posMax + 1)) := by
  have valid := mt (invalid_batchAllocr_iff model.nTokens tokens (kv.posMax + 1)).mp
    (not_not.mpr admitted.valid)
  simp only [decode, if_neg admitted.nonempty, if_neg valid, length_batchAllocr, admitted.nBatch,
    admitted.nUbatch, admitted.reserved, not_true, if_false]

theorem decode_of_not_admitted {model : DecodeModel} {cparams : CParams} {oracle : DecodeOracle}
    {tokens : List Int} (refused : ¬ Admitted model cparams oracle tokens) (kv : KvCache) :
    (decode model cparams oracle kv tokens).kv = kv := by
  have valid := invalid_batchAllocr_iff model.nTokens tokens (kv.posMax + 1)
  simp only [decode, length_batchAllocr]
  split
  · rfl
  · split
    · rfl
    · split
      · rfl
      · split
        · rfl
        · split
          · rfl
          · rename_i some invalid nBatch nUbatch reserved
            exact absurd ⟨some, not_not.mp (mt valid.mpr invalid), not_not.mp nBatch,
              not_not.mp nUbatch, not_not.mp reserved⟩ refused

/-! ## The cell in the loop -/

theorem OneCell.advance {kv : KvCache} {cell : KvCell} (one : OneCell kv cell) {length : Nat}
    (some : 0 < length) : OneCell (kv.advance length) cell where
  cells := one.cells
  size := one.size
  head := by
    simp only [KvCache.advance, one.head, one.size]
    exact if_pos (by omega)

theorem decodeRecurrent_encoder {kv : KvCache} {cell : KvCell} (one : OneCell kv cell)
    (nUbatch : Nat) (status : Nat → GgmlStatus) :
    ∀ (fuel index : Nat) (sbatch : List UToken), 0 < nUbatch →
      (decodeRecurrent false nUbatch status fuel index kv (SlotRestorer.init kv) sbatch).kv = kv := by
  intro fuel
  induction fuel with
  | zero => intro index sbatch _; cases sbatch <;> rfl
  | succ fuel ih =>
      intro index sbatch positive
      cases sbatch with
      | nil => rfl
      | cons column others =>
          have same : kv.advance (splitEqual nUbatch (column :: others)).1.length = kv := by
            have filled : 0 < (splitEqual nUbatch (column :: others)).1.length := by
              simp [splitEqual, splitSimple]
              omega
            have advanced := one.advance filled
            have head := advanced.head.trans one.head.symm
            simp only [KvCache.advance] at head ⊢
            rw [head]
          simp only [decodeRecurrent, Bool.false_eq_true, if_false, same]
          cases status index with
          | success => exact ih _ _ positive
          | aborted | allocFailed | failed => rfl

/-- The restorer erases the cell, unless its position is the last one there is. -/
theorem OneCell.restore {kv : KvCache} {cell : KvCell} (one : OneCell kv cell)
    (holds : cell.tail = 0 ∧ cell.seqId = {0}) {guard : SlotRestorer} (saved : guard.doRestore = true)
    (origin : guard.oldHead = 0) :
    ∃ left, OneCell (guard.restoreRecurrent kv) left ∧ (left.Erased ∨ left = cell) := by
  simp only [SlotRestorer.restoreRecurrent, saved, if_true, origin]
  have cells := one.cells
  have size := one.size
  by_cases inside : 0 ≤ cell.pos ∧ cell.pos < 0x7fffffff
  · refine ⟨{ cell with seqId := ∅, pos := -1, src := -1 }, ⟨?_, size, ?_⟩, Or.inl ⟨holds.1, rfl⟩⟩
    · simp [KvCache.seqRm, cells, KvCell.remove, inside]
    · simp [KvCache.seqRm]
  · refine ⟨cell, ⟨?_, size, ?_⟩, Or.inr rfl⟩
    · simp only [KvCache.seqRm, cells, KvCell.remove, List.map_cons, List.map_nil]
      simp [inside]
    · simp [KvCache.seqRm]

/-- The cache while a micro-batch that ends at this position is computed. -/
def KvCell.holding (cell : KvCell) (pos : Int) : KvCache :=
  { head := 0, size := 1, used := 1, n := 1, cells := [cell.hold pos] }

theorem oneCell_holding (cell : KvCell) (pos : Int) :
    OneCell (cell.holding pos) (cell.hold pos) := ⟨rfl, rfl, rfl⟩

/-- One round from a live cell: its micro-batch always gets the cell. -/
theorem decodeRecurrent_round {kv : KvCache} {cell : KvCell} (one : OneCell kv cell)
    (live : cell.Live) {nUbatch : Nat} (positive : 0 < nUbatch) {column : UToken}
    (zero : column.seqId = [0]) (others : List UToken) :
    ∃ last ∈ column :: others, ∀ (status : Nat → GgmlStatus) (fuel index : Nat)
      (guard : SlotRestorer),
      decodeRecurrent true nUbatch status (fuel + 1) index kv guard (column :: others) =
        match status index with
        | .success =>
          decodeRecurrent true nUbatch status fuel (index + 1)
            ((cell.holding last.pos).advance (min (column :: others).length nUbatch))
            (guard.save 0 0) ((column :: others).drop nUbatch)
        | other =>
          { outcome := .returned (statusCode other)
            kv := (guard.save 0 0).restoreRecurrent (cell.holding last.pos), slotCalls := [] } := by
  have length : ((column :: others).take (min (column :: others).length nUbatch)).length =
      min (column :: others).length nUbatch := by simp
  have nonempty : 0 < min (column :: others).length nUbatch := by simp [positive]
  obtain ⟨last, there⟩ : ∃ last, ((column :: others).take
      (min (column :: others).length nUbatch))[min (column :: others).length nUbatch - 1]? =
        some last := ⟨_, List.getElem?_eq_getElem (by rw [length]; omega)⟩
  refine ⟨last, List.mem_of_mem_take (List.mem_of_getElem? there), fun status fuel index guard => ?_⟩
  have front : ¬ kv.used + 2 * min (column :: others).length nUbatch < kv.head := by
    rw [one.head]
    omega
  have pos : (((column :: others).take (min (column :: others).length nUbatch)).map
      UToken.pos).getD (min (column :: others).length nUbatch - 1) 0 = last.pos := by
    rw [List.getD_eq_getElem?_getD, List.getElem?_map, there]
    rfl
  have rest : (column :: others).drop (min (column :: others).length nUbatch) =
      (column :: others).drop nUbatch := by
    rcases Nat.le_total (column :: others).length nUbatch with short | long
    · rw [Nat.min_eq_left short, List.drop_length, List.drop_of_length_le short]
    · rw [Nat.min_eq_right long]
  have slot := one.findSlot_live live (min (column :: others).length nUbatch)
    (((column :: others).take (min (column :: others).length nUbatch)).map UToken.pos)
  rw [pos] at slot
  simp only [decodeRecurrent, splitEqual, splitSimple, length, front, if_true, if_false, zero, slot,
    rest]
  rfl

/-- How the loop ends from a live cell: it is live again, or the computation of a
micro-batch failed and the cell was erased. -/
theorem decodeRecurrent_cell {nUbatch : Nat} (positive : 0 < nUbatch)
    (status : Nat → GgmlStatus) (p : Int) :
    ∀ (fuel index : Nat) (kv : KvCache) (cell : KvCell) (guard : SlotRestorer)
      (sbatch : List UToken), OneCell kv cell → cell.Live → guard.oldHead = 0 →
      sbatch.length ≤ fuel → (∀ column ∈ sbatch, column.seqId = [0] ∧ p < column.pos) →
      let r := decodeRecurrent true nUbatch status fuel index kv guard sbatch
      (r.outcome = .returned 0 ∧
        (∀ i, i * nUbatch < sbatch.length → status (index + i) = .success) ∧
        ∃ left, OneCell r.kv left ∧ left.Live) ∨
      ∃ i, i * nUbatch < sbatch.length ∧ status (index + i) ≠ .success ∧
        r.outcome = .returned (statusCode (status (index + i))) ∧
        ∃ left, OneCell r.kv left ∧ (left.Erased ∨ left.Live ∧ p < left.pos) := by
  intro fuel
  induction fuel with
  | zero =>
      intro index kv cell guard sbatch one live _ enough _
      obtain rfl := List.length_eq_zero_iff.mp (Nat.le_zero.mp enough)
      exact Or.inl ⟨rfl, by simp, cell, one, live⟩
  | succ fuel ih =>
      intro index kv cell guard sbatch one live origin enough columns
      cases sbatch with
      | nil => exact Or.inl ⟨rfl, by simp, cell, one, live⟩
      | cons column others =>
          obtain ⟨last, member, round⟩ :=
            decodeRecurrent_round one live positive (columns column (by simp)).1 others
          have held : (cell.hold last.pos).Live := Or.inr ⟨rfl, rfl⟩
          have beyond : p < (cell.hold last.pos).pos := (columns last member).2
          have failing : status index ≠ .success →
              ∃ i, i * nUbatch < (column :: others).length ∧ status (index + i) ≠ .success ∧
                DecodeOutcome.returned (statusCode (status index)) =
                  .returned (statusCode (status (index + i))) ∧
                ∃ left, OneCell ((guard.save 0 0).restoreRecurrent (cell.holding last.pos)) left ∧
                  (left.Erased ∨ left.Live ∧ p < left.pos) := by
            intro failed
            have saved : (guard.save 0 0).doRestore = true := rfl
            obtain ⟨left, oneLeft, how⟩ :=
              (oneCell_holding cell last.pos).restore ⟨rfl, rfl⟩ saved origin
            refine ⟨0, by simp, failed, rfl, left, oneLeft, how.imp id ?_⟩
            rintro rfl
            exact ⟨held, beyond⟩
          rw [round]
          cases computed : status index with
          | success =>
              have filled : 0 < min (column :: others).length nUbatch := by simp [positive]
              have one' := (oneCell_holding cell last.pos).advance filled
              -- the micro-batches behind this one have the indices behind it
              rcases ih (index + 1) _ _ (guard.save 0 0) ((column :: others).drop nUbatch) one' held
                origin (by simp only [List.length_drop, List.length_cons] at enough ⊢; omega)
                (fun column member => columns column (List.mem_of_mem_drop member)) with
                ⟨done, all, kept⟩ | ⟨i, inside, failed, outcome, left⟩
              · refine Or.inl ⟨done, fun i inside => ?_, kept⟩
                cases i with
                | zero => exact computed
                | succ i =>
                    rw [Nat.add_comm i, ← Nat.add_assoc]
                    apply all
                    rw [List.length_drop]
                    rw [Nat.succ_mul] at inside
                    omega
              · refine Or.inr ⟨i + 1, ?_, ?_, ?_, left⟩
                · rw [List.length_drop] at inside
                  rw [Nat.succ_mul]
                  omega
                · rwa [Nat.add_comm i, ← Nat.add_assoc]
                · rwa [Nat.add_comm i, ← Nat.add_assoc]
          | aborted | allocFailed | failed =>
              rw [computed] at failing
              exact Or.inr (failing (by simp))

/-! ## The decode -/

theorem columns_batchAllocr_beyond {kv : KvCache} {cell : KvCell} (one : OneCell kv cell)
    (tokens : List Int) : ∀ column ∈ batchAllocr tokens (kv.posMax + 1),
      column.seqId = [0] ∧ cell.pos < column.pos := by
  intro column member
  obtain ⟨i, _, rfl⟩ := List.mem_mapIdx.mp member
  have low : cell.pos ≤ kv.posMax := by simp [KvCache.posMax, one.cells]
  refine ⟨rfl, ?_⟩
  simp only
  omega

theorem decode_live {model : DecodeModel} (recurrent : model.recurrent = true)
    (causal : model.causalAttn = true) {cparams : CParams} (positive : 0 < cparams.nUbatch)
    {oracle : DecodeOracle} {tokens : List Int} (admitted : Admitted model cparams oracle tokens)
    {kv : KvCache} {cell : KvCell} (one : OneCell kv cell) (live : cell.Live) :
    let r := decode model cparams oracle kv tokens
    (r.outcome = .returned 0 ∧ ¬ ComputationFails cparams oracle tokens ∧
      ∃ left, OneCell r.kv left ∧ left.Live) ∨
    (∃ i, oracle.computeStatus i ≠ .success ∧
        r.outcome = .returned (statusCode (oracle.computeStatus i))) ∧
      ComputationFails cparams oracle tokens ∧
      ∃ left, OneCell r.kv left ∧ (left.Erased ∨ left.Live ∧ cell.pos < left.pos) := by
  intro r
  have run : r = decodeRecurrent true cparams.nUbatch oracle.computeStatus tokens.length 0 kv
      (SlotRestorer.init kv) (batchAllocr tokens (kv.posMax + 1)) := by
    simp only [r, decode_of_admitted admitted, recurrent, causal, if_true]
  have length := length_batchAllocr tokens (kv.posMax + 1)
  rcases decodeRecurrent_cell positive oracle.computeStatus cell.pos tokens.length 0 kv cell
    (SlotRestorer.init kv) (batchAllocr tokens (kv.posMax + 1)) one live one.head length.le
    (columns_batchAllocr_beyond one tokens) with
    ⟨done, all, left⟩ | ⟨i, inside, failed, outcome, left⟩
  · rw [← run] at done left
    refine Or.inl ⟨done, ?_, left⟩
    rintro ⟨i, inside, failed⟩
    have := all i (by rwa [length])
    rw [Nat.zero_add] at this
    exact failed this
  · rw [← run] at outcome left
    rw [Nat.zero_add] at failed outcome
    rw [length] at inside
    exact Or.inr ⟨⟨i, failed, outcome⟩, ⟨i, inside, failed⟩, left⟩

theorem decode_erased {model : DecodeModel} (recurrent : model.recurrent = true)
    (causal : model.causalAttn = true) {cparams : CParams} {oracle : DecodeOracle}
    {tokens : List Int} (admitted : Admitted model cparams oracle tokens)
    {kv : KvCache} {cell : KvCell} (one : OneCell kv cell) (erased : cell.Erased) :
    (decode model cparams oracle kv tokens).outcome = .assertFailed ∧
      (decode model cparams oracle kv tokens).kv = kv := by
  rw [decode_of_admitted admitted, recurrent, causal, if_pos rfl]
  cases tokens with
  | nil => exact absurd rfl admitted.nonempty
  | cons token others =>
      have front : ∀ length, ¬ kv.used + length < kv.head := by
        intro length
        rw [one.head]
        omega
      simp [batchAllocr, List.mapIdx_cons, decodeRecurrent, front, one.findSlot_erased erased]

theorem decode_recurrent_encoder {model : DecodeModel} (recurrent : model.recurrent = true)
    (encoder : model.causalAttn = false) {cparams : CParams} (positive : 0 < cparams.nUbatch)
    (oracle : DecodeOracle) {kv : KvCache} {cell : KvCell} (one : OneCell kv cell)
    (tokens : List Int) : (decode model cparams oracle kv tokens).kv = kv := by
  by_cases admitted : Admitted model cparams oracle tokens
  · rw [decode_of_admitted admitted, recurrent, encoder, if_pos rfl]
    exact decodeRecurrent_encoder one _ _ _ _ _ positive
  · exact decode_of_not_admitted admitted kv

def Tracked (kv : KvCache) : Prop := ∃ cell, OneCell kv cell ∧ (cell.Live ∨ cell.Erased)

theorem tracked_init : Tracked (KvCache.init 1) := ⟨{}, ⟨rfl, rfl, rfl⟩, Or.inl (Or.inl ⟨rfl, rfl⟩)⟩

theorem Tracked.decode {model : DecodeModel} (recurrent : model.recurrent = true)
    {cparams : CParams} (positive : 0 < cparams.nUbatch) (oracle : DecodeOracle) {kv : KvCache}
    (tracked : Tracked kv) (tokens : List Int) :
    Tracked (decode model cparams oracle kv tokens).kv := by
  obtain ⟨cell, one, state⟩ := tracked
  cases attention : model.causalAttn with
  | false =>
      rw [decode_recurrent_encoder recurrent attention positive oracle one]
      exact ⟨cell, one, state⟩
  | true =>
      by_cases admitted : Admitted model cparams oracle tokens
      · rcases state with live | erased
        · rcases decode_live recurrent attention positive admitted one live with
            ⟨_, _, left, one', live'⟩ | ⟨_, _, left, one', erased' | ⟨live', _⟩⟩
          · exact ⟨left, one', Or.inl live'⟩
          · exact ⟨left, one', Or.inr erased'⟩
          · exact ⟨left, one', Or.inl live'⟩
        · rw [(decode_erased recurrent attention admitted one erased).2]
          exact ⟨cell, one, Or.inr erased⟩
      · rw [decode_of_not_admitted admitted]
        exact ⟨cell, one, state⟩

/-- Something is left to erase: the tail of sequence 0 does not point to an erased cell. -/
def Unerased (kv : KvCache) : Prop := ¬ (kv.cellAt 0).Erased

theorem OneCell.unerased_iff {kv : KvCache} {cell : KvCell} (one : OneCell kv cell) :
    Unerased kv ↔ ¬ cell.Erased := by
  simp [Unerased, KvCache.cellAt, one.cells]

theorem not_erased_of_live {cell : KvCell} (live : cell.Live) : ¬ cell.Erased := by
  rintro ⟨tail, seqs⟩
  rcases live with ⟨noTail, _⟩ | ⟨_, holds⟩
  · omega
  · rw [seqs] at holds
    exact absurd holds.symm (Finset.singleton_ne_empty 0)

/-- The decode is admitted, there is a cell to lose, and a computation fails. -/
structure Erases (model : DecodeModel) (cparams : CParams) (oracle : DecodeOracle)
    (kv : KvCache) (tokens : List Int) : Prop where
  causal : model.causalAttn = true
  admitted : Admitted model cparams oracle tokens
  unerased : Unerased kv
  fails : ComputationFails cparams oracle tokens

/-- Such a decode returns the code of the failed computation with another cache. -/
theorem Erases.changed {model : DecodeModel} (recurrent : model.recurrent = true)
    {cparams : CParams} (positive : 0 < cparams.nUbatch) {oracle : DecodeOracle} {kv : KvCache}
    (tracked : Tracked kv) {tokens : List Int} (erases : Erases model cparams oracle kv tokens) :
    (∃ i, oracle.computeStatus i ≠ .success ∧ (decode model cparams oracle kv tokens).outcome =
        .returned (statusCode (oracle.computeStatus i))) ∧
      (decode model cparams oracle kv tokens).kv ≠ kv := by
  obtain ⟨cell, one, state⟩ := tracked
  have live := state.resolve_right (one.unerased_iff.mp erases.unerased)
  rcases decode_live recurrent erases.causal positive erases.admitted one live with
    ⟨_, computed, _⟩ | ⟨outcome, _, left, one', how⟩
  · exact absurd erases.fails computed
  · refine ⟨outcome, fun same => ?_⟩
    rw [same] at one'
    obtain rfl : cell = left := List.head_eq_of_cons_eq (one.cells.symm.trans one'.cells)
    rcases how with erased | ⟨_, beyond⟩
    · exact not_erased_of_live live erased
    · exact absurd beyond (Int.lt_irrefl _)

/-- Every other decode that ends without success leaves the cache as it was. -/
theorem kept_of_not_erases {model : DecodeModel} (recurrent : model.recurrent = true)
    {cparams : CParams} (positive : 0 < cparams.nUbatch) {oracle : DecodeOracle} {kv : KvCache}
    (tracked : Tracked kv) {tokens : List Int} (other : ¬ Erases model cparams oracle kv tokens)
    (failed : (decode model cparams oracle kv tokens).outcome ≠ .returned 0) :
    (decode model cparams oracle kv tokens).kv = kv := by
  obtain ⟨cell, one, state⟩ := tracked
  cases attention : model.causalAttn with
  | false => exact decode_recurrent_encoder recurrent attention positive oracle one tokens
  | true =>
      by_cases admitted : Admitted model cparams oracle tokens
      · rcases state with live | erased
        · rcases decode_live recurrent attention positive admitted one live with
            ⟨done, _⟩ | ⟨_, fails, _⟩
          · exact absurd done failed
          · exact absurd ⟨attention, admitted, one.unerased_iff.mpr (not_erased_of_live live), fails⟩
              other
        · exact (decode_erased recurrent attention admitted one erased).2
      · exact decode_of_not_admitted admitted kv

end MineGPT.Kv
