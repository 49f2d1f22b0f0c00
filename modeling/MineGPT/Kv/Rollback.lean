import MineGPT.Kv.Linear

/-!
# A batch is taken whole or not at all

Over a linear cache with room for the batch, `decode` finds a slot for every
micro-batch at once, right behind the tokens already there.  When all
micro-batches were computed the log has grown by the batch; when one was not,
the guard brings the cache back to what it was, head included.
-/

set_option autoImplicit false

namespace MineGPT.Kv

/-- What a good answer of `find_slot` looks like: the free cells right behind
the log, written with positions equal to their indices, all others untouched. -/
structure SlotCall.Sound (call : SlotCall) : Prop where
  room : call.before.used + call.ubatch.length ≤ call.before.size
  free : ∀ i, call.before.used ≤ i → i < call.before.used + call.ubatch.length →
    call.before.cellAt i = {}
  answered : ∃ after,
    call.answer =
      some (.slot call.before.used (call.before.used + call.ubatch.length), after) ∧
    after.used = call.before.used + call.ubatch.length ∧
    (∀ i < call.before.used, after.cellAt i = call.before.cellAt i) ∧
    ∀ i < call.before.used + call.ubatch.length, (after.cellAt i).pos = i

theorem cellAt_layout {size used : Nat} {filled : Nat → Bool} {head n i : Nat}
    (inside : i < size) :
    (KvCache.mk head size used n (layout size filled)).cellAt i =
      if filled i then tokenCell i else {} := by
  rw [KvCache.cellAt, getD_layout]
  simp [inside]

theorem Linear.findSlot_sound {kv : KvCache} (linear : Linear kv) {ubatch : List UToken}
    (nonempty : ubatch ≠ []) (fits : kv.used + ubatch.length ≤ kv.size)
    (columns : Columns kv.used ubatch) :
    SlotCall.Sound { before := kv, ubatch := ubatch, answer := kv.findSlot ubatch } where
  room := fits
  free := by
    intro i behind _
    simp only at behind
    rw [linear.cellAt, if_neg (by omega)]
  answered := by
    refine ⟨_, linear.findSlot nonempty fits columns, rfl, ?_, ?_⟩
    · intro i before
      simp only at before
      rw [linear.cellAt, cellAt_layout (by omega)]
      simp only [before, if_true]
      rw [if_pos (by simp; omega)]
    · intro i inside
      simp only at inside
      rw [cellAt_layout (by omega), if_pos (by simpa using inside)]
      rfl

/-- The guard of a decode that started from `origin` covers everything written
since. -/
structure Covers (origin : KvCache) (guard : SlotRestorer) (kv : KvCache) : Prop where
  cells : kv.cells = layout kv.size fun i => i < kv.used
  used_le : kv.used ≤ kv.size
  size : kv.size = origin.size
  oldHead : guard.oldHead = origin.head
  oldN : guard.oldN = origin.n
  grown : origin.used ≤ kv.used
  covered : ∀ i, origin.used ≤ i → i < kv.used → guard.slotBoundaries.any (inSlot · i) = true
  behind : ∀ slot ∈ guard.slotBoundaries, origin.used ≤ slot.1
  idle : guard.doRestore = false → kv = origin

theorem covers_init {kv : KvCache} (linear : Linear kv) :
    Covers kv (SlotRestorer.init kv) kv where
  cells := linear.cells
  used_le := linear.used_le
  size := rfl
  oldHead := rfl
  oldN := rfl
  grown := Nat.le_refl _
  covered := by intro i _ _; omega
  behind := by intro slot member; simp [SlotRestorer.init] at member
  idle := fun _ => rfl

theorem Covers.restore {origin kv : KvCache} {guard : SlotRestorer} (linear : Linear origin)
    (covers : Covers origin guard kv) : guard.restore kv = origin := by
  cases active : guard.doRestore with
  | false =>
      simp only [SlotRestorer.restore, active, Bool.false_eq_true, if_false]
      exact covers.idle active
  | true =>
      have remaining : ∀ i < kv.size, (decide (i < kv.used) &&
          !guard.slotBoundaries.any (inSlot · i)) = decide (i < origin.used) := by
        intro i _
        by_cases old : i < origin.used
        · have untouched : guard.slotBoundaries.any (inSlot · i) = false := by
            rw [List.any_eq_false]
            intro slot member
            have := covers.behind slot member
            simp only [inSlot, Bool.and_eq_true, decide_eq_true_eq]
            omega
          have := covers.grown
          simp [untouched, old, show i < kv.used by omega]
        · by_cases written : i < kv.used
          · simp [covers.covered i (by omega) written, old]
          · simp [written, old]
      have held : kv.used = heldIn kv.size fun i => i < kv.used := by
        rw [heldIn_lt, Nat.min_eq_right covers.used_le]
      have behind : ∀ slot ∈ guard.slotBoundaries, guard.oldHead ≤ slot.1 := by
        intro slot member
        rw [covers.oldHead]
        exact Nat.le_trans linear.head_le (covers.behind slot member)
      have undone := foldl_seqRm_layout guard.slotBoundaries
        { kv with head := guard.oldHead, n := guard.oldN } _ covers.cells held behind
      simp only [SlotRestorer.restore, active, if_true]
      rw [undone, layout_congr remaining, heldIn_congr remaining, heldIn_lt, covers.size,
        covers.oldHead, covers.oldN, Nat.min_eq_right linear.used_le, ← linear.cells]

theorem Covers.save {origin kv after : KvCache} {guard : SlotRestorer}
    (covers : Covers origin guard kv) {length : Nat} (positive : 0 < length)
    (fits : kv.used + length ≤ kv.size) (size : after.size = kv.size)
    (used : after.used = kv.used + length)
    (cells : after.cells = layout kv.size fun i => i < kv.used + length) :
    Covers origin (guard.save kv.used (kv.used + length)) after where
  cells := by rw [cells, size, used]
  used_le := by omega
  size := size.trans covers.size
  oldHead := covers.oldHead
  oldN := covers.oldN
  grown := by have := covers.grown; omega
  covered := by
    intro i low high
    simp only [SlotRestorer.save]
    rw [if_pos (by omega), List.any_append, Bool.or_eq_true]
    by_cases earlier : i < kv.used
    · exact Or.inl (covers.covered i low earlier)
    · right
      simp only [List.any_cons, List.any_nil, Bool.or_false, inSlot, Bool.and_eq_true,
        decide_eq_true_eq]
      omega
  behind := by
    intro slot member
    simp only [SlotRestorer.save] at member
    rw [if_pos (by omega)] at member
    rcases List.mem_append.mp member with earlier | here
    · exact covers.behind slot earlier
    · rw [List.mem_singleton.mp here]
      exact covers.grown
  idle := by intro inactive; simp [SlotRestorer.save] at inactive

theorem Covers.advance {origin kv : KvCache} {guard : SlotRestorer}
    (covers : Covers origin guard kv) {length : Nat} (active : guard.doRestore = true) :
    Covers origin guard (kv.advance length) where
  cells := covers.cells
  used_le := covers.used_le
  size := covers.size
  oldHead := covers.oldHead
  oldN := covers.oldN
  grown := covers.grown
  covered := covers.covered
  behind := covers.behind
  idle := by intro inactive; rw [active] at inactive; cases inactive

theorem linear_advance {kv after : KvCache} {length : Nat}
    (fits : kv.used + length ≤ kv.size) (head : after.head = kv.used)
    (size : after.size = kv.size) (used : after.used = kv.used + length)
    (cells : after.cells = layout kv.size fun i => i < kv.used + length) :
    Linear (after.advance length) where
  cells := by simp only [KvCache.advance, cells, size, used]
  used_le := by simp only [KvCache.advance]; omega
  head := by
    simp only [KvCache.advance, head, size, used]
    split_ifs <;> omega

def KvCache.appended (kv : KvCache) (length : Nat) : KvCache :=
  let after := { kv with
    cells := layout kv.size fun i => i < kv.used + length
    used := kv.used + length }
  { after with n := min after.size (max getPadding (ggmlPad after.cellMax getPadding)) }

theorem decodeUbatches_step {nUbatch : Nat} (positive : 0 < nUbatch)
    (status : Nat → GgmlStatus) (fuel index : Nat) {kv : KvCache} (guard : SlotRestorer)
    {sbatch : List UToken} (linear : Linear kv) (columns : Columns kv.used sbatch)
    (fits : kv.used + sbatch.length ≤ kv.size) (nonempty : sbatch ≠ []) :
    ∃ call : SlotCall, call.Sound ∧
      decodeUbatches true nUbatch status (fuel + 1) index kv guard sbatch =
        let length := min sbatch.length nUbatch
        let after := kv.appended length
        let saved := guard.save kv.used (kv.used + length)
        match status index with
        | .success =>
          let result := decodeUbatches true nUbatch status fuel (index + 1)
            (after.advance length) saved (sbatch.drop length)
          { result with slotCalls := call :: result.slotCalls }
        | other =>
          { outcome := .returned (statusCode other), kv := saved.restore after,
            slotCalls := [call] } := by
  have some_left : 0 < sbatch.length := List.length_pos_iff.mpr nonempty
  have length_ubatch : (sbatch.take (min sbatch.length nUbatch)).length =
      min sbatch.length nUbatch := by
    rw [List.length_take]
    omega
  have ubatch_nonempty : sbatch.take (min sbatch.length nUbatch) ≠ [] :=
    List.length_pos_iff.mp (by omega)
  have ubatch_fits : kv.used + (sbatch.take (min sbatch.length nUbatch)).length ≤ kv.size := by
    omega
  have ubatch_columns := columns.take (min sbatch.length nUbatch)
  have sound := linear.findSlot_sound ubatch_nonempty ubatch_fits ubatch_columns
  refine ⟨_, sound, ?_⟩
  cases sbatch with
  | nil => exact absurd rfl nonempty
  | cons column others =>
      have head_le := linear.head_le
      -- the head never runs ahead of the log, so the search starts behind it
      have stays : ¬ kv.used + 2 * (splitSimple nUbatch (column :: others)).1.length <
        kv.head := by omega
      have found := linear.findSlot ubatch_nonempty ubatch_fits ubatch_columns
      simp only [decodeUbatches, if_true, stays, if_false]
      simp only [splitSimple, found, length_ubatch]
      cases status index <;> rfl

/-- The outcome of a decode from `origin`: the log holds `total` tokens, or the
cache is what it was; every slot taken on the way was sound. -/
structure DecodeResult.WholeOrNothing (origin : KvCache) (total : Nat)
    (result : DecodeResult) : Prop where
  whole : result.outcome = .returned 0 →
    Linear result.kv ∧ result.kv.size = origin.size ∧ result.kv.used = total
  nothing : result.outcome ≠ .returned 0 → result.kv = origin
  sound : ∀ call ∈ result.slotCalls, call.Sound

theorem wholeOrNothing_done {origin kv : KvCache} (linear : Linear kv)
    (size : kv.size = origin.size) :
    DecodeResult.WholeOrNothing origin kv.used
      { outcome := .returned 0, kv := kv, slotCalls := [] } where
  whole := fun _ => ⟨linear, size, rfl⟩
  nothing := fun failed => absurd rfl failed
  sound := by simp

theorem wholeOrNothing_stays {origin : KvCache} {outcome : DecodeOutcome} (total : Nat)
    (failed : outcome ≠ .returned 0) {calls : List SlotCall}
    (sound : ∀ call ∈ calls, call.Sound) :
    DecodeResult.WholeOrNothing origin total
      { outcome := outcome, kv := origin, slotCalls := calls } where
  whole := fun done => absurd done failed
  nothing := fun _ => rfl
  sound := sound

theorem decodeUbatches_wholeOrNothing {nUbatch : Nat} (positive : 0 < nUbatch)
    (status : Nat → GgmlStatus) {origin : KvCache} (start : Linear origin) :
    ∀ (fuel index : Nat) (kv : KvCache) (guard : SlotRestorer) (sbatch : List UToken),
      Linear kv → Covers origin guard kv → Columns kv.used sbatch →
      kv.used + sbatch.length ≤ kv.size → sbatch.length ≤ fuel →
      (decodeUbatches true nUbatch status fuel index kv guard sbatch).WholeOrNothing
        origin (kv.used + sbatch.length) := by
  intro fuel
  -- induction on the fuel; the guard covers what was written so far
  induction fuel with
  | zero =>
      intro index kv guard sbatch linear covers _ _ enough
      have empty : sbatch = [] := List.length_eq_zero_iff.mp (Nat.le_zero.mp enough)
      subst empty
      exact wholeOrNothing_done linear covers.size
  | succ fuel ih =>
      intro index kv guard sbatch linear covers columns fits enough
      by_cases empty : sbatch = []
      · subst empty
        exact wholeOrNothing_done linear covers.size
      · obtain ⟨call, sound, step⟩ :=
          decodeUbatches_step positive status fuel index guard linear columns fits empty
        have some_left : 0 < sbatch.length := List.length_pos_iff.mpr empty
        rw [step]
        generalize length_eq : min sbatch.length nUbatch = length
        have covers' : Covers origin (guard.save kv.used (kv.used + length))
            (kv.appended length) :=
          covers.save (by omega) (by omega) rfl rfl rfl
        cases computed : status index with
        | success =>
            have atEnd : kv.head = kv.used := by
              rw [linear.head, if_pos (by omega)]
            have linear' : Linear ((kv.appended length).advance length) :=
              linear_advance (by omega) atEnd rfl rfl rfl
            have columns' := columns.drop (show length ≤ sbatch.length by omega)
            have total : kv.used + length + (sbatch.drop length).length =
                kv.used + sbatch.length := by
              rw [List.length_drop]
              omega
            have later := ih (index + 1) _ _ (sbatch.drop length) linear'
              (covers'.advance rfl) columns'
              (by show kv.used + length + _ ≤ kv.size; omega)
              (by rw [List.length_drop]; omega)
            rw [← total]
            refine ⟨later.whole, later.nothing, ?_⟩
            intro other member
            rcases List.mem_cons.mp member with here | behind
            · exact here ▸ sound
            · exact later.sound other behind
        | aborted | allocFailed | failed =>
            simp only
            rw [covers'.restore start]
            refine wholeOrNothing_stays _ (by simp [statusCode]) ?_
            intro other member
            exact List.mem_singleton.mp member ▸ sound

/-- A decode of a batch for which the cache has room, on a transformer with
causal attention. -/
theorem decode_wholeOrNothing {model : DecodeModel} {cparams : CParams}
    (transformer : model.recurrent = false) (causal : model.causalAttn = true)
    (positive : 0 < cparams.nUbatch) (oracle : DecodeOracle) {kv : KvCache}
    (linear : Linear kv) {tokens : List Int} (fits : kv.used + tokens.length ≤ kv.size) :
    (decode model cparams oracle kv tokens).WholeOrNothing kv (kv.used + tokens.length) := by
  have length : (batchAllocr tokens (kv.posMax + 1)).length = tokens.length := by
    simp [batchAllocr]
  have columns : Columns kv.used (batchAllocr tokens (kv.posMax + 1)) := by
    rw [linear.posMax]
    exact columns_batchAllocr tokens kv.used
  have none_called : ∀ call ∈ ([] : List SlotCall), call.Sound := by simp
  have run := decodeUbatches_wholeOrNothing positive oracle.computeStatus linear
    (batchAllocr tokens (kv.posMax + 1)).length 0 kv (SlotRestorer.init kv)
    (batchAllocr tokens (kv.posMax + 1)) linear (covers_init linear) columns
    (by omega) (Nat.le_refl _)
  rw [length] at run
  simp only [decode, transformer, causal, length, Bool.false_eq_true, if_false]
  split_ifs
  all_goals first
    | exact run
    | exact wholeOrNothing_stays _ (by simp) none_called

theorem decodeUbatches_encoder_restores {nUbatch : Nat} (status : Nat → GgmlStatus)
    {fuel : Nat} (index : Nat) (kv : KvCache) {sbatch : List UToken}
    (whole : sbatch.length ≤ nUbatch)
    (failed : (decodeUbatches false nUbatch status fuel index kv (SlotRestorer.init kv)
      sbatch).outcome ≠ .returned 0) :
    (decodeUbatches false nUbatch status fuel index kv (SlotRestorer.init kv) sbatch).kv = kv := by
  cases sbatch with
  | nil => simp [decodeUbatches] at failed
  | cons column others =>
      cases fuel with
      | zero => rfl
      | succ fuel =>
          have rest : (splitSimple nUbatch (column :: others)).2 = [] := by
            simp only [splitSimple, Nat.min_eq_left whole, List.drop_length]
          simp only [decodeUbatches, rest, Bool.false_eq_true, if_false] at failed ⊢
          cases computed : status index with
          | success => simp [computed] at failed
          | aborted | allocFailed | failed => rfl

theorem decode_encoder_restores {model : DecodeModel} {cparams : CParams}
    (transformer : model.recurrent = false) (encoder : model.causalAttn = false)
    (same : cparams.causalAttn = false) (oracle : DecodeOracle) (kv : KvCache)
    (tokens : List Int)
    (failed : (decode model cparams oracle kv tokens).outcome ≠ .returned 0) :
    (decode model cparams oracle kv tokens).kv = kv := by
  simp only [decode, transformer, encoder, same, Bool.false_eq_true, false_or, if_false] at failed ⊢
  split_ifs at failed ⊢ with _ _ _ whole _
  all_goals first
    | rfl
    | exact decodeUbatches_encoder_restores _ _ _ whole failed

end MineGPT.Kv
