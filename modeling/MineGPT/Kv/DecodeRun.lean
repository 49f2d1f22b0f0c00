import MineGPT.Kv.Lifetime

/-!
# A decode is a sequence of operations

Where no shift and no defragmentation is pending, the micro-batches of `decode` and the
slot restorer of a failing one are operations of the store.  So what holds over its
lifetime holds of every decode, however it ends.
-/

set_option autoImplicit false

namespace MineGPT.Kv

open MineGPT.Lib.Machine

section Run

variable {β : Type} {shift : Int → β → β} {compute : UToken → β} {zero : β}
  {params : KvStore.Params} {kvSize : Nat}

structure KvStore.Idle (kv : KvStore β) : Prop where
  quiet : kv.hasShift = false
  still : kv.doDefrag = false

theorem selfUpdate_idle {kv : KvStore β} (idle : kv.Idle) :
    kv.selfUpdate shift params = some kv := by
  rw [KvStore.selfUpdate, KvStore.settle, idle.quiet, Bool.false_and, if_neg Bool.false_ne_true]
  dsimp only
  rw [if_neg Bool.false_ne_true]
  dsimp only
  rw [idle.still]
  rfl

theorem proper_take {columns : List UToken} (proper : ∀ column ∈ columns, column.Proper) (n : Nat) :
    ∀ column ∈ columns.take n, column.Proper :=
  fun column member => proper column (List.mem_of_mem_take member)

theorem proper_drop {columns : List UToken} (proper : ∀ column ∈ columns, column.Proper) (n : Nat) :
    ∀ column ∈ columns.drop n, column.Proper :=
  fun column member => proper column (List.mem_of_mem_drop member)

/-- `decode` searches from the beginning if enough cells before the head are free. -/
def KvCache.rewound (kv : KvCache) (nTokens : Nat) : KvCache :=
  if kv.used + 2 * nTokens < kv.head then { kv with head := 0 } else kv

def KvOp.Decodes : KvOp β → Prop
  | .ubatch _ _ => True
  | .restore _ => True
  | _ => False

def KvOp.columns : KvOp β → List UToken
  | .ubatch columns _ => columns
  | _ => []

section Step

variable {nUbatch fuel index first second : Nat} {status : Nat → GgmlStatus} {kv after : KvCache}
  {guard : SlotRestorer} {sbatch : List UToken}

theorem kv_failed (more : sbatch ≠ [])
    (found : (kv.rewound (splitSimple nUbatch sbatch).1.length).findSlot
      (splitSimple nUbatch sbatch).1 = some (.failed, after)) :
    (decodeUbatches true nUbatch status (fuel + 1) index kv guard sbatch).kv =
      guard.restore after := by
  obtain ⟨column, rest, rfl⟩ := List.exists_cons_of_ne_nil more
  unfold KvCache.rewound at found
  rw [decodeUbatches]
  · dsimp only
    rw [if_pos rfl, found]
  · exact List.cons_ne_nil column rest

theorem kv_slot (more : sbatch ≠ [])
    (found : (kv.rewound (splitSimple nUbatch sbatch).1.length).findSlot
      (splitSimple nUbatch sbatch).1 = some (.slot first second, after)) :
    (decodeUbatches true nUbatch status (fuel + 1) index kv guard sbatch).kv =
      let after := { after with
        n := min after.size (max getPadding (ggmlPad after.cellMax getPadding)) }
      if status index = .success then
        (decodeUbatches true nUbatch status fuel (index + 1)
          (after.advance (splitSimple nUbatch sbatch).1.length) (guard.save first second)
          (splitSimple nUbatch sbatch).2).kv
      else (guard.save first second).restore after := by
  obtain ⟨column, rest, rfl⟩ := List.exists_cons_of_ne_nil more
  unfold KvCache.rewound at found
  rw [decodeUbatches]
  · dsimp only
    rw [if_pos rfl, found]
    cases status index <;> rfl
  · exact List.cons_ne_nil column rest

end Step

/-- The micro-batches of a decode, and its restorer if one of them fails. -/
theorem decodeUbatches_run {nUbatch : Nat} {status : Nat → GgmlStatus} :
    ∀ (fuel index : Nat) (kv : KvStore β) (guard : SlotRestorer) (sbatch : List UToken),
      kv.Idle → guard.oldHead ≤ kvSize → (∀ column ∈ sbatch, column.Proper) →
      ∃ ops last, (∀ op ∈ ops, op.Proper params kvSize ∧ op.Decodes) ∧
        ops.flatMap KvOp.columns <+: sbatch ∧
        runSteps (KvStore.step shift compute zero params) kv ops = some last ∧ last.Idle ∧
        last.cache = (decodeUbatches true nUbatch status fuel index kv.cache guard sbatch).kv := by
  intro fuel
  induction fuel with
  | zero =>
      intro index kv guard sbatch idle _ _
      refine ⟨[], kv, fun op member => absurd member List.not_mem_nil, List.nil_prefix, rfl, idle, ?_⟩
      cases sbatch <;> rfl
  | succ fuel ih =>
      intro index kv guard sbatch idle inside proper
      by_cases more : sbatch = []
      · rw [more]
        exact ⟨[], kv, fun op member => absurd member List.not_mem_nil, List.nil_prefix, rfl, idle,
          rfl⟩
      have some : ∀ column ∈ (splitSimple nUbatch sbatch).1, column.Proper :=
        proper_take proper _
      have others : ∀ column ∈ (splitSimple nUbatch sbatch).2, column.Proper :=
        proper_drop proper _
      have taken : ∀ failed, kv.decodeUbatch shift compute params (splitSimple nUbatch sbatch).1
          failed = ((kv.cache.rewound (splitSimple nUbatch sbatch).1.length).findSlot
            (splitSimple nUbatch sbatch).1).map _ := fun failed => by
        rw [KvStore.decodeUbatch, selfUpdate_idle idle, Option.bind_some]
        rfl
      cases found : (kv.cache.rewound (splitSimple nUbatch sbatch).1.length).findSlot
          (splitSimple nUbatch sbatch).1 with
      | none => exact absurd found (KvCache.findSlot_ends _ _)
      | some answer =>
          obtain ⟨slot, after⟩ := answer
          cases slot with
          | failed =>
              rw [kv_failed more found]
              refine ⟨[.ubatch (splitSimple nUbatch sbatch).1 none, .restore guard],
                { kv with cache := guard.restore after }, ?_, ?_, ?_, ⟨idle.quiet, idle.still⟩, rfl⟩
              · simpa [KvOp.Proper, KvOp.Decodes] using ⟨some, inside⟩
              · simpa [KvOp.columns, splitSimple] using List.take_prefix _ sbatch
              · rw [runSteps, KvStore.step, taken none, found]
                rfl
          | slot first second =>
              rw [kv_slot more found]
              dsimp only
              split_ifs with computed
              · obtain ⟨ops, last, all, front, run, idle', same⟩ := ih (index + 1)
                  { kv with
                    cache := KvCache.advance { after with
                      n := min after.size (max getPadding (ggmlPad after.cellMax getPadding)) }
                      (splitSimple nUbatch sbatch).1.length
                    rows := KvStore.writeRows kv.rows first
                      ((splitSimple nUbatch sbatch).1.map compute) }
                  (guard.save first second) (splitSimple nUbatch sbatch).2
                  ⟨idle.quiet, idle.still⟩ inside others
                refine ⟨.ubatch (splitSimple nUbatch sbatch).1 none :: ops, last, ?_, ?_, ?_, idle',
                  same⟩
                · intro op member
                  rcases List.mem_cons.mp member with rfl | later
                  · exact ⟨some, trivial⟩
                  · exact all op later
                · have both := (List.prefix_append_right_inj (splitSimple nUbatch sbatch).1).mpr
                    front
                  rwa [show (splitSimple nUbatch sbatch).1 ++ (splitSimple nUbatch sbatch).2 = sbatch
                    from List.take_append_drop _ _] at both
                · rw [runSteps, KvStore.step, taken none, found]
                  exact run
              · refine ⟨[.ubatch (splitSimple nUbatch sbatch).1 (Option.some []),
                    .restore (guard.save first second)],
                  { kv with
                    cache := (guard.save first second).restore { after with
                      n := min after.size (max getPadding (ggmlPad after.cellMax getPadding)) }
                    rows := KvStore.writeRows kv.rows first
                      (([] : List β).take (splitSimple nUbatch sbatch).1.length) }, ?_, ?_, ?_,
                  ⟨idle.quiet, idle.still⟩, rfl⟩
                · simpa [KvOp.Proper, KvOp.Decodes] using ⟨some, inside⟩
                · simpa [KvOp.columns, splitSimple] using List.take_prefix _ sbatch
                · rw [runSteps, KvStore.step, taken (Option.some []), found]
                  rfl

theorem posMax_ge (kv : KvCache) : -1 ≤ kv.posMax := by
  have each : ∀ (cells : List KvCell) (best : Int), -1 ≤ best →
      -1 ≤ cells.foldl (fun best cell => max best cell.pos) best := by
    intro cells
    induction cells with
    | nil => exact fun _ low => low
    | cons cell rest ih => exact fun best low => ih _ (Int.le_trans low (Int.le_max_left _ _))
  exact each kv.cells (-1) (Int.le_refl _)

theorem proper_batchAllocr (kv : KvCache) (tokens : List Int) :
    ∀ column ∈ batchAllocr tokens (kv.posMax + 1), column.Proper := by
  intro column member
  have low := posMax_ge kv
  obtain ⟨i, less, rfl⟩ := List.mem_mapIdx.mp member
  exact ⟨by dsimp only; omega, List.cons_ne_nil _ _⟩

end Run

end MineGPT.Kv
