import MineGPT.Kv.Recurrent

/-!
# Decoding a batch

`llama_context::decode` as far as it touches the KV cache: the checks on the
batch, its split into micro-batches, one slot per micro-batch, and the guard
that undoes all slots unless every micro-batch was computed.  What the hardware
answers (whether the output buffer can be reserved, the status of each graph
computation) is an oracle.

`kv_self_update` and the request for a defragmentation at the end are left out:
they do nothing in a context without a pending shift or defragmentation whose
`defrag_thold` is not positive, as MineGPT's.
-/

set_option autoImplicit false

namespace MineGPT.Kv

inductive GgmlStatus where
  | success
  | aborted
  | allocFailed
  | failed
  deriving DecidableEq, Repr

structure CParams where
  nCtx : Nat
  nBatch : Nat
  nUbatch : Nat
  causalAttn : Bool
  deriving DecidableEq, Repr

structure DecodeOracle where
  outputReserved : Bool
  /-- Status of the graph computation of each micro-batch, by its index. -/
  computeStatus : Nat → GgmlStatus

inductive DecodeOutcome where
  | returned (ret : Int)
  | threw (what : String)
  | assertFailed
  | diverged
  deriving DecidableEq, Repr

/-- One call of `find_slot`: the cache before, the micro-batch, the answer and
the cache after. -/
structure SlotCall where
  before : KvCache
  ubatch : List UToken
  answer : Option (SlotInfo × KvCache)
  deriving DecidableEq

structure DecodeResult where
  outcome : DecodeOutcome
  kv : KvCache
  slotCalls : List SlotCall
  deriving DecidableEq

/-- `GGML_PAD(x, n)` on `uint32_t`, for a power of two `n`: adds `n - 1` and
clears the low bits. -/
def ggmlPad (x n : Nat) : Nat :=
  let sum := (x + n - 1) % 2 ^ 32
  sum - sum % n

/-- `get_padding`, without flash attention. -/
def getPadding : Nat := 32

/-- `llama_batch_allocr`: MineGPT passes bare tokens, so positions follow the
largest one in the cache and every token belongs to sequence 0. -/
def batchAllocr (tokens : List Int) (p0 : Int) : List UToken :=
  tokens.mapIdx fun i token => { token := token, pos := i + p0, seqId := [0] }

def splitSimple (nUbatch : Nat) (sbatch : List UToken) : List UToken × List UToken :=
  let length := min sbatch.length nUbatch
  (sbatch.take length, sbatch.drop length)

def KvCache.advance (kv : KvCache) (nTokens : Nat) : KvCache :=
  let head := kv.head + nTokens
  { kv with head := if kv.size ≤ head then 0 else head }

def statusCode : GgmlStatus → Int
  | .success => 0
  | .aborted => 2
  | .allocFailed => -2
  | .failed => -3

/-- `while (sbatch.n_tokens > 0)`.  Every micro-batch takes at least one token
when `n_ubatch > 0`, so the batch length is enough fuel. -/
def decodeUbatches (causal : Bool) (nUbatch : Nat) (status : Nat → GgmlStatus) :
    Nat → Nat → KvCache → SlotRestorer → List UToken → DecodeResult
  | _, _, kv, _, [] => { outcome := .returned 0, kv := kv, slotCalls := [] }
  | 0, _, kv, _, _ :: _ => { outcome := .diverged, kv := kv, slotCalls := [] }
  | fuel + 1, index, kv, guard, sbatch =>
    let (ubatch, rest) := splitSimple nUbatch sbatch
    let compute := fun (kv : KvCache) (guard : SlotRestorer) =>
      match status index with
      | .success =>
        decodeUbatches causal nUbatch status fuel (index + 1) (kv.advance ubatch.length)
          guard rest
      | other =>
        { outcome := .returned (statusCode other), kv := guard.restore kv, slotCalls := [] }
    -- non-causal masks do not use the KV cache
    if causal then
      let kv := if kv.used + 2 * ubatch.length < kv.head then { kv with head := 0 } else kv
      let call : SlotCall := { before := kv, ubatch := ubatch, answer := kv.findSlot ubatch }
      match kv.findSlot ubatch with
      | none => { outcome := .diverged, kv := kv, slotCalls := [call] }
      | some (.failed, after) =>
        { outcome := .returned (-3), kv := guard.restore after, slotCalls := [call] }
      | some (.slot first second, after) =>
        let after := { after with
          n := min after.size (max getPadding (ggmlPad after.cellMax getPadding)) }
        let result := compute after (guard.save first second)
        { result with slotCalls := call :: result.slotCalls }
    else compute kv guard

/-- `split_equal` of a batch that is one sequence. -/
def splitEqual (nUbatch : Nat) (sbatch : List UToken) : List UToken × List UToken :=
  splitSimple nUbatch sbatch

/-- The same loop for a recurrent model; its slots have no boundaries. -/
def decodeRecurrent (causal : Bool) (nUbatch : Nat) (status : Nat → GgmlStatus) :
    Nat → Nat → KvCache → SlotRestorer → List UToken → DecodeResult
  | _, _, kv, _, [] => { outcome := .returned 0, kv := kv, slotCalls := [] }
  | 0, _, kv, _, _ :: _ => { outcome := .diverged, kv := kv, slotCalls := [] }
  | fuel + 1, index, kv, guard, column :: others =>
    let (ubatch, rest) := splitEqual nUbatch (column :: others)
    let compute := fun (kv : KvCache) (guard : SlotRestorer) =>
      match status index with
      | .success =>
        decodeRecurrent causal nUbatch status fuel (index + 1) (kv.advance ubatch.length)
          guard rest
      | other =>
        { outcome := .returned (statusCode other), kv := guard.restoreRecurrent kv
          slotCalls := [] }
    if causal then
      let kv := if kv.used + 2 * ubatch.length < kv.head then { kv with head := 0 } else kv
      match kv.findSlotRecurrent ubatch.length [column.seqId] (ubatch.map UToken.pos) with
      | .assertFailed => { outcome := .assertFailed, kv := kv, slotCalls := [] }
      | .failed after =>
        { outcome := .returned (-3), kv := guard.restoreRecurrent after, slotCalls := [] }
      | .found after => compute after (guard.save 0 0)
    else compute kv guard

structure DecodeModel where
  nTokens : Nat
  causalAttn : Bool
  recurrent : Bool

def decode (model : DecodeModel) (cparams : CParams) (oracle : DecodeOracle) (kv : KvCache)
    (tokens : List Int) : DecodeResult :=
  let stay := fun outcome => ({ outcome := outcome, kv := kv, slotCalls := [] } : DecodeResult)
  if tokens = [] then stay (.returned (-1))
  else
    let batch := batchAllocr tokens (kv.posMax + 1)
    if batch.any fun column => column.token < 0 || (model.nTokens : Int) ≤ column.token then
      stay (.threw "invalid token")
    else if ¬ batch.length ≤ cparams.nBatch then stay .assertFailed
    else if ¬ (cparams.causalAttn ∨ batch.length ≤ cparams.nUbatch) then stay .assertFailed
    else if ¬ oracle.outputReserved then stay (.returned (-2))
    else
      let run := if model.recurrent then decodeRecurrent else decodeUbatches
      run model.causalAttn cparams.nUbatch oracle.computeStatus batch.length 0
        kv (SlotRestorer.init kv) batch

/-! ## How a decode ends -/

/-- What holds of the outcomes of one round holds of the outcome of the loop.
Induction on the fuel; only an empty micro-batch can use it up. -/
theorem decodeUbatches_outcome {P : DecodeOutcome → Prop} {causal : Bool} {nUbatch : Nat}
    {status : Nat → GgmlStatus} (done : P (.returned 0)) (unprepared : P (.returned (-3)))
    (failed : ∀ index, status index ≠ .success → P (.returned (statusCode (status index))))
    (stuck : nUbatch = 0 → P .diverged) :
    ∀ (fuel index : Nat) (kv : KvCache) (guard : SlotRestorer) (sbatch : List UToken),
      nUbatch = 0 ∨ sbatch.length ≤ fuel →
      P (decodeUbatches causal nUbatch status fuel index kv guard sbatch).outcome := by
  intro fuel
  induction fuel with
  | zero =>
      intro index kv guard sbatch enough
      cases sbatch with
      | nil => exact done
      | cons column others =>
          rcases enough with empty | inside
          · exact stuck empty
          · simp at inside
  | succ fuel ih =>
      intro index kv guard sbatch enough
      cases sbatch with
      | nil => exact done
      | cons column others =>
          have less : nUbatch = 0 ∨
              ((column :: others).drop (min (column :: others).length nUbatch)).length ≤ fuel := by
            simp only [List.length_drop, List.length_cons] at enough ⊢
            omega
          have later := fun kv guard => ih (index + 1) kv guard _ less
          have stopped := failed index
          simp only [decodeUbatches, splitSimple]
          split
          · split
            · rename_i none_found
              exact absurd none_found (KvCache.findSlot_ends _ _)
            · exact unprepared
            · cases computed : status index with
              | success => exact later _ _
              | aborted | allocFailed | failed =>
                  rw [computed] at stopped
                  exact stopped (by simp)
          · cases computed : status index with
            | success => exact later _ _
            | aborted | allocFailed | failed =>
                rw [computed] at stopped
                exact stopped (by simp)

theorem decodeRecurrent_outcome {P : DecodeOutcome → Prop} {causal : Bool} {nUbatch : Nat}
    {status : Nat → GgmlStatus} (done : P (.returned 0)) (unprepared : P (.returned (-3)))
    (failed : ∀ index, status index ≠ .success → P (.returned (statusCode (status index))))
    (asserted : P .assertFailed) (stuck : nUbatch = 0 → P .diverged) :
    ∀ (fuel index : Nat) (kv : KvCache) (guard : SlotRestorer) (sbatch : List UToken),
      nUbatch = 0 ∨ sbatch.length ≤ fuel →
      P (decodeRecurrent causal nUbatch status fuel index kv guard sbatch).outcome := by
  intro fuel
  induction fuel with
  | zero =>
      intro index kv guard sbatch enough
      cases sbatch with
      | nil => exact done
      | cons column others =>
          rcases enough with empty | inside
          · exact stuck empty
          · simp at inside
  | succ fuel ih =>
      intro index kv guard sbatch enough
      cases sbatch with
      | nil => exact done
      | cons column others =>
          have less : nUbatch = 0 ∨
              ((column :: others).drop (min (column :: others).length nUbatch)).length ≤ fuel := by
            simp only [List.length_drop, List.length_cons] at enough ⊢
            omega
          have computed : ∀ (kv : KvCache) (guard : SlotRestorer) (length : Nat),
              P (match status index with
                | .success =>
                  decodeRecurrent causal nUbatch status fuel (index + 1) (kv.advance length) guard
                    ((column :: others).drop (min (column :: others).length nUbatch))
                | other =>
                  { outcome := .returned (statusCode other), kv := guard.restoreRecurrent kv
                    slotCalls := [] }).outcome := by
            intro kv guard length
            have stopped := failed index
            cases outcome : status index with
            | success => exact ih (index + 1) _ _ _ less
            | aborted | allocFailed | failed =>
                rw [outcome] at stopped
                exact stopped (by simp)
          simp only [decodeRecurrent, splitEqual, splitSimple]
          split
          · split
            · exact asserted
            · exact unprepared
            · exact computed _ _ _
          · exact computed _ _ _

theorem decode_outcome {P : DecodeOutcome → Prop} {model : DecodeModel} {cparams : CParams}
    {oracle : DecodeOracle} (returned : ∀ ret ∈ [0, -1, -2, -3], P (.returned ret))
    (threw : P (.threw "invalid token")) (asserted : P .assertFailed)
    (failed : ∀ index, oracle.computeStatus index ≠ .success →
      P (.returned (statusCode (oracle.computeStatus index))))
    (stuck : cparams.nUbatch = 0 → P .diverged) (kv : KvCache) (tokens : List Int) :
    P (decode model cparams oracle kv tokens).outcome := by
  simp only [decode]
  split_ifs
  · exact returned (-1) (by simp)
  · exact threw
  · exact decodeRecurrent_outcome (returned 0 (by simp)) (returned (-3) (by simp)) failed asserted
      stuck _ _ _ _ _ (Or.inr (Nat.le_refl _))
  · exact decodeUbatches_outcome (returned 0 (by simp)) (returned (-3) (by simp)) failed stuck
      _ _ _ _ _ (Or.inr (Nat.le_refl _))
  · exact returned (-2) (by simp)
  · exact asserted
  · exact asserted

theorem statusCode_nonpos {status : GgmlStatus} (ran : status ≠ .aborted) :
    statusCode status ≤ 0 := by
  cases status with
  | aborted => exact absurd rfl ran
  | success | allocFailed | failed => decide

/-- A decode that is not aborted never returns a positive code: what
`completionLoop` lets pass is a success. -/
theorem decode_nonpos {oracle : DecodeOracle}
    (neverAborted : ∀ index, oracle.computeStatus index ≠ .aborted) {model : DecodeModel}
    {cparams : CParams} {kv : KvCache} {tokens : List Int} {ret : Int}
    (returned : (decode model cparams oracle kv tokens).outcome = .returned ret) : ret ≤ 0 := by
  refine decode_outcome (P := fun outcome => ∀ ret, outcome = .returned ret → ret ≤ 0)
    ?_ ?_ ?_ ?_ ?_ kv tokens ret returned
  · intro code member ret same
    rw [← DecodeOutcome.returned.inj same]
    simp only [List.mem_cons, List.not_mem_nil, or_false] at member
    omega
  · simp
  · simp
  · intro index _ ret same
    rw [← DecodeOutcome.returned.inj same]
    exact statusCode_nonpos (neverAborted index)
  · simp

/-- A decode with non-empty micro-batches always ends, whatever the cache. -/
theorem decode_ends {cparams : CParams} (positive : 0 < cparams.nUbatch) (model : DecodeModel)
    (oracle : DecodeOracle) (kv : KvCache) (tokens : List Int) :
    (decode model cparams oracle kv tokens).outcome ≠ .diverged :=
  decode_outcome (P := (· ≠ .diverged)) (by simp) (by simp) (by simp) (by simp)
    (fun empty => by omega) kv tokens

end MineGPT.Kv
