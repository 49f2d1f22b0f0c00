import Mathlib.Data.List.GetD
import MineGPT.Kv.Cache
import MineGPT.Lib.Compaction

/-!
# Defragmenting the cache

`defrag_prepare` moves the cells at the end of the cache into the holes in front,
as long as it may, and notes in `ids` where each cell goes.
`build_kv_self_defrag` makes copies of rows out of that, a block of neighbours at a
time.
-/

set_option autoImplicit false

namespace MineGPT.Kv

open MineGPT.Lib.Compaction

structure Defrag where
  cells : List KvCell
  ids : List Nat
  head : Nat
  nMoves : Nat
  deriving DecidableEq

section Prepare

variable (nKv nUsed maxMoves : Nat)

def holeEnd (cells : List KvCell) : Nat → Nat → Nat
  | 0, i => i
  | fuel + 1, i =>
    if i < nUsed && (cells.getD i {}).isEmpty then holeEnd cells fuel (i + 1) else i

def Defrag.passed (s : Defrag) (i : Nat) : Bool :=
  (s.cells.getD i {}).isEmpty || s.ids.getD i nKv != nKv

/-- From the end, to the cell that makes `nh` of them. -/
def findBack (s : Defrag) (i0 nh : Nat) : Nat → Nat → Nat × Nat
  | 0, nf => (0, nf)
  | is + 1, nf =>
    if is + 1 ≤ i0 then (is + 1, nf)
    else if s.passed nKv (is + 1) then findBack s i0 nh is nf
    else if nf + 1 = nh then (is + 1, nf + 1)
    else findBack s i0 nh is (nf + 1)

/-- Going back and moving the cells to the hole; whether to stop. -/
def moveCells (i0 nh : Nat) : Nat → Nat → Nat → Bool → Defrag → Defrag × Bool
  | 0, _, _, _, s => (s, false)
  | fuel + 1, i1, nf, cont, s =>
    if nKv ≤ i1 then (s, false)
    else if s.passed nKv i1 then
      if s.nMoves = maxMoves then (s, true) else moveCells i0 nh fuel (i1 + 1) nf false s
    else
      let moved : Defrag :=
        { cells := (s.cells.set (i0 + nf) (s.cells.getD i1 {})).set i1 {}
          ids := s.ids.set i1 (i0 + nf)
          head := nUsed
          nMoves := if cont then s.nMoves else s.nMoves + 1 }
      if nf + 1 = nh then (moved, false) else moveCells i0 nh fuel (i1 + 1) (nf + 1) true moved

/-- `none` is the assertion that the end has enough cells for the hole. -/
def defragLoop : Nat → Nat → Defrag → Option Defrag
  | 0, _, _ => none
  | fuel + 1, i0, s =>
    if nUsed ≤ i0 then some s
    else if !(s.cells.getD i0 {}).isEmpty then
      defragLoop fuel (i0 + 1) { s with ids := s.ids.set i0 i0 }
    else
      let nh := holeEnd nUsed s.cells (nUsed - i0) i0 - i0
      let (is, nf) := findBack nKv s i0 nh (nKv - 1) 0
      if nf ≠ nh then none
      else
        let (s, stop) := moveCells nKv nUsed maxMoves i0 nh (nKv - is) is 0 false s
        if stop || s.nMoves == maxMoves then some s else defragLoop fuel (i0 + nh) s

end Prepare

/-- Each move takes `6*n_layer` tensors. -/
def defragMaxMoves (nMaxNodes nLayer : Nat) : Nat := (nMaxNodes - 2 * nLayer) / (6 * nLayer)

/-- `none` is one of the assertions. -/
def KvCache.defragMoves (kv : KvCache) (maxMoves : Nat) : Option Defrag :=
  let nKv := kv.cellMax
  if nKv < kv.used then none
  else
    defragLoop nKv kv.used maxMoves (kv.used + 1) 0
      { cells := kv.cells, ids := List.replicate nKv nKv, head := kv.head, nMoves := 0 }

/-- The cache, `ids`, and whether cells have been moved. -/
def KvCache.defragPrepare (kv : KvCache) (maxMoves : Nat) : Option (KvCache × List Nat × Bool) :=
  (kv.defragMoves maxMoves).map fun s =>
    ({ kv with cells := s.cells, head := s.head }, s.ids, s.nMoves != 0)

/-! ## The copies -/

/-- `nm` rows from `src` on to `dst` and behind. -/
structure Copy where
  src : Nat
  dst : Nat
  nm : Nat
  deriving DecidableEq, Repr

def runLength (ids : List Nat) (i id : Nat) : Nat → Nat → Nat
  | 0, nm => nm
  | fuel + 1, nm =>
    if i + nm < ids.length && ids.getD (i + nm) 0 == id + nm then runLength ids i id fuel (nm + 1)
    else nm

def copyLoop (ids : List Nat) : Nat → Nat → List Copy
  | 0, _ => []
  | fuel + 1, i =>
    if ids.length ≤ i then []
    else
      let id := ids.getD i 0
      if i = id ∨ id = ids.length then copyLoop ids fuel (i + 1)
      else
        let nm := runLength ids i id ids.length 1
        { src := i, dst := id, nm := nm } :: copyLoop ids fuel (i + nm)

def buildDefrag (ids : List Nat) : List Copy := copyLoop ids ids.length 0

section Rows

variable {β : Type}

def Copy.apply (copy : Copy) (rows : Nat → β) (j : Nat) : β :=
  if copy.dst ≤ j ∧ j < copy.dst + copy.nm then rows (copy.src + (j - copy.dst)) else rows j

def applyCopies (rows : Nat → β) (copies : List Copy) : Nat → β :=
  copies.foldl (fun rows copy => copy.apply rows) rows

end Rows

/-! ## The loops keep the invariant -/

def KvCell.Taken (cell : KvCell) : Prop := cell.isEmpty = false

instance : DecidablePred KvCell.Taken := fun _ => inferInstanceAs (Decidable (_ = _))

theorem not_taken_empty : ¬ KvCell.Taken {} := by simp [KvCell.Taken, KvCell.isEmpty]

theorem getD_set {γ : Type} {xs : List γ} {i : Nat} (inside : i < xs.length) (value default : γ) :
    (fun k => (xs.set i value).getD k default) =
      Function.update (fun k => xs.getD k default) i value := by
  funext k
  by_cases here : k = i
  · subst here
    simp [inside]
  · rw [Function.update_of_ne here]
    simp [List.getElem?_set_ne (Ne.symm here)]

theorem getD_inside {γ : Type} {xs : List γ} {i : Nat} (inside : i < xs.length)
    (default default' : γ) : xs.getD i default = xs.getD i default' :=
  (List.getD_eq_getElem _ _ inside).trans (List.getD_eq_getElem _ _ inside).symm

def Moves (ids : List Nat) (i : Nat) : Prop :=
  i < ids.length ∧ ids.getD i 0 ≠ i ∧ ids.getD i 0 ≠ ids.length

def Starts (ids : List Nat) (i : Nat) : Prop :=
  Moves ids i ∧ ∀ j, i = j + 1 → Moves ids j → ids.getD i 0 ≠ ids.getD j 0 + 1

def Budget (ids : List Nat) (n : Nat) : Prop :=
  ∃ blocks : Finset Nat, blocks.card ≤ n ∧ ∀ i, Starts ids i → i ∈ blocks

theorem getD_set_of_ne {ids : List Nat} {i k value : Nat} (other : k ≠ i) :
    (ids.set i value).getD k 0 = ids.getD k 0 := by
  rw [List.getD_eq_getElem?_getD, List.getElem?_set_ne (Ne.symm other), List.getD_eq_getElem?_getD]

theorem moves_set {ids : List Nat} {i k value : Nat} (other : k ≠ i) :
    Moves (ids.set i value) k ↔ Moves ids k := by
  unfold Moves
  rw [getD_set_of_ne other, List.length_set]

/-- A cell that did not move begins no block behind it. -/
theorem starts_set {ids : List Nat} {i k value : Nat} (free : ¬ Moves ids i) (other : k ≠ i)
    (starts : Starts (ids.set i value) k) : Starts ids k := by
  obtain ⟨moves, first⟩ := starts
  refine ⟨(moves_set other).mp moves, fun j behind moves' => ?_⟩
  have elsewhere : j ≠ i := by
    rintro rfl
    exact free moves'
  have apart := first j behind ((moves_set elsewhere).mpr moves')
  rwa [getD_set_of_ne other, getD_set_of_ne elsewhere] at apart

theorem Budget.set {ids : List Nat} {n i value : Nat} (budget : Budget ids n)
    (free : ¬ Moves ids i) : Budget (ids.set i value) (n + 1) := by
  obtain ⟨blocks, few, all⟩ := budget
  refine ⟨insert i blocks, Nat.le_trans (Finset.card_insert_le _ _) (by omega), fun k starts => ?_⟩
  by_cases here : k = i
  · exact here ▸ Finset.mem_insert_self i blocks
  · exact Finset.mem_insert_of_mem (all k (starts_set free here starts))

theorem Budget.set_of_not {ids : List Nat} {n i value : Nat} (budget : Budget ids n)
    (free : ¬ Moves ids i) (goesOn : ¬ Starts (ids.set i value) i) :
    Budget (ids.set i value) n := by
  obtain ⟨blocks, few, all⟩ := budget
  refine ⟨blocks, few, fun k starts => ?_⟩
  by_cases here : k = i
  · exact absurd (here ▸ starts) goesOn
  · exact all k (starts_set free here starts)

structure Defrag.Inv (cells : List KvCell) (nKv nUsed front : Nat) (s : Defrag) : Prop where
  length : s.cells.length = cells.length
  ids : s.ids.length = nKv
  kept : nKv ≤ cells.length
  still : s.nMoves = 0 → ∀ i, s.ids.getD i nKv = i ∨ s.ids.getD i nKv = nKv
  budget : Budget s.ids s.nMoves
  compacting : Compacting KvCell.Taken {} (fun i => cells.getD i {}) (fun i => s.cells.getD i {})
    (fun i => s.ids.getD i nKv) nKv nUsed front

section Loops

variable {cells : List KvCell} {nKv nUsed front maxMoves : Nat} {s : Defrag}

abbrev Defrag.taken (s : Defrag) (n : Nat) : Nat :=
  Nat.count (fun i => KvCell.Taken (s.cells.getD i {})) n

theorem Defrag.Inv.passed_iff (inv : s.Inv cells nKv nUsed front) {i : Nat} (low : nUsed ≤ i)
    (high : i < nKv) : s.passed nKv i = true ↔ ¬ KvCell.Taken (s.cells.getD i {}) := by
  unfold Defrag.passed KvCell.Taken
  rcases inv.compacting.back i low high with ⟨untouched, _⟩ | ⟨_, _, _, _, gone⟩
  · rw [untouched, bne_self_eq_false, Bool.or_false, Bool.not_eq_false]
  · rw [gone]
    simp [KvCell.isEmpty]

theorem Defrag.Inv.not_moves (inv : s.Inv cells nKv nUsed front) {i : Nat}
    (untouched : s.ids.getD i nKv = nKv) : ¬ Moves s.ids i := by
  rintro ⟨less, _, some⟩
  rw [getD_inside less 0 nKv, inv.ids] at some
  exact some untouched

theorem Defrag.Inv.keep (inv : s.Inv cells nKv nUsed front) (more : front < nUsed)
    (held : KvCell.Taken (s.cells.getD front {})) :
    Defrag.Inv cells nKv nUsed (front + 1) { s with ids := s.ids.set front front } where
  length := inv.length
  ids := by rw [List.length_set, inv.ids]
  kept := inv.kept
  still := by
    intro none i
    have under := inv.compacting.under
    have inside : front < s.ids.length := by
      rw [inv.ids]
      omega
    have now := congrFun (getD_set inside front nKv) i
    dsimp only at now ⊢
    rw [now]
    by_cases here : i = front
    · rw [here, Function.update_self]
      exact Or.inl rfl
    · rw [Function.update_of_ne here]
      exact inv.still none i
  budget := by
    refine inv.budget.set_of_not (inv.not_moves (inv.compacting.ahead front (Nat.le_refl _) more).1)
      fun starts => starts.1.2.1 ?_
    have inside := starts.1.1
    rw [List.length_set] at inside
    simp [inside]
  compacting := by
    have under := inv.compacting.under
    have inside : front < s.ids.length := by
      rw [inv.ids]
      omega
    dsimp only
    rw [getD_set inside]
    exact inv.compacting.keep more held

def Defrag.moved (s : Defrag) (front i nUsed nMoves : Nat) : Defrag :=
  { cells := (s.cells.set front (s.cells.getD i {})).set i {}
    ids := s.ids.set i front
    head := nUsed
    nMoves := nMoves }

theorem Defrag.moved_cells (s : Defrag) {front i : Nat}
    (first : front < s.cells.length) (second : i < s.cells.length) (nUsed nMoves : Nat) :
    (fun k => (s.moved front i nUsed nMoves).cells.getD k {}) =
      Function.update (Function.update (fun k => s.cells.getD k {}) front (s.cells.getD i {})) i {} := by
  unfold Defrag.moved
  dsimp only
  rw [getD_set (by rwa [List.length_set]), getD_set first]

theorem Defrag.Inv.fill (inv : s.Inv cells nKv nUsed front) (more : front < nUsed)
    (hole : ¬ KvCell.Taken (s.cells.getD front {})) {i : Nat} (low : nUsed ≤ i) (high : i < nKv)
    (held : KvCell.Taken (s.cells.getD i {})) {nMoves : Nat} (some : 0 < nMoves)
    (budget : Budget (s.ids.set i front) nMoves) :
    Defrag.Inv cells nKv nUsed (front + 1) (s.moved front i nUsed nMoves) := by
  have kept := inv.kept
  have size := inv.length
  refine ⟨?_, ?_, kept, fun none => absurd none (Nat.pos_iff_ne_zero.mp some), budget, ?_⟩
  · simp [Defrag.moved, size]
  · simp [Defrag.moved, inv.ids]
  · have inside : i < s.ids.length := by rwa [inv.ids]
    rw [s.moved_cells (by omega) (by omega) nUsed nMoves]
    unfold Defrag.moved
    dsimp only
    rw [getD_set inside]
    exact inv.compacting.fill not_taken_empty more hole low high held

theorem holeEnd_spec (cells : List KvCell) (nUsed : Nat) : ∀ (fuel i : Nat),
    i ≤ nUsed → nUsed ≤ i + fuel →
    i ≤ holeEnd nUsed cells fuel i ∧ holeEnd nUsed cells fuel i ≤ nUsed ∧
      ∀ k, i ≤ k → k < holeEnd nUsed cells fuel i → ¬ KvCell.Taken (cells.getD k {}) := by
  intro fuel
  induction fuel with
  | zero =>
      intro i inside _
      exact ⟨Nat.le_refl i, inside, fun k low high => absurd high (Nat.not_lt.mpr low)⟩
  | succ fuel ih =>
      intro i inside enough
      rw [holeEnd]
      split_ifs with more
      · simp only [Bool.and_eq_true, decide_eq_true_eq] at more
        obtain ⟨less, empty⟩ := more
        obtain ⟨later, most, free⟩ := ih (i + 1) less (by omega)
        refine ⟨by omega, most, fun k low high => ?_⟩
        rcases Nat.lt_or_ge i k with behind | here
        · exact free k behind high
        · have same : k = i := by omega
          rw [same, KvCell.Taken, empty]
          simp
      · exact ⟨Nat.le_refl i, inside, fun k low high => absurd high (Nat.not_lt.mpr low)⟩

theorem holeEnd_gt {cells : List KvCell} {i : Nat} (more : i < nUsed)
    (empty : ¬ KvCell.Taken (cells.getD i {})) :
    i < holeEnd nUsed cells (nUsed - i) i := by
  obtain ⟨n, rest⟩ : ∃ n, nUsed - i = n + 1 := ⟨nUsed - i - 1, by omega⟩
  have free : (cells.getD i {}).isEmpty = true := by
    simpa [KvCell.Taken] using empty
  rw [rest, holeEnd, if_pos (by rw [free]; simp [more])]
  exact (holeEnd_spec cells nUsed n (i + 1) more (by omega)).1

theorem findBack_spec (inv : s.Inv cells nKv nUsed front) {i0 nh : Nat} (first : i0 < nUsed)
    (enough : s.taken nUsed + nh ≤ s.taken nKv) : ∀ (is nf : Nat), is < nKv → nf < nh →
    s.taken (is + 1) + nf = s.taken nKv →
    ∃ found, findBack nKv s i0 nh is nf = (found, nh) ∧ nUsed ≤ found ∧ found < nKv ∧
      s.taken found + nh = s.taken nKv := by
  have behind : ∀ is nf, nf < nh → s.taken (is + 1) + nf = s.taken nKv → nUsed ≤ is := by
    intro is nf few total
    by_contra early
    have less : s.taken (is + 1) ≤ s.taken nUsed := Nat.count_monotone _ (by omega)
    omega
  intro is
  induction is with
  | zero =>
      intro nf _ few total
      have early := behind 0 nf few total
      omega
  | succ is ih =>
      intro nf inside few total
      have late := behind (is + 1) nf few total
      have step : s.taken (is + 1 + 1) = s.taken (is + 1) +
          if KvCell.Taken (s.cells.getD (is + 1) {}) then 1 else 0 := Nat.count_succ _ _
      rw [findBack, if_neg (by omega)]
      by_cases passed : s.passed nKv (is + 1) = true
      · rw [if_pos passed]
        rw [if_neg ((inv.passed_iff late inside).mp passed)] at step
        exact ih nf (by omega) few (by omega)
      · rw [if_neg passed]
        have held : KvCell.Taken (s.cells.getD (is + 1) {}) := by
          by_contra free
          exact passed ((inv.passed_iff late inside).mpr free)
        rw [if_pos held] at step
        split_ifs with last
        · exact ⟨is + 1, by rw [last], late, inside, by omega⟩
        · exact ih (nf + 1) (by omega) (by omega) (by omega)

theorem moveCells_spec {i0 nh : Nat} (inside : i0 + nh ≤ nUsed) : ∀ (fuel i1 nf : Nat) (cont : Bool)
    (s : Defrag), s.Inv cells nKv nUsed (i0 + nf) → nf < nh →
    (∀ k, i0 + nf ≤ k → k < i0 + nh → ¬ KvCell.Taken (s.cells.getD k {})) → nUsed ≤ i1 →
    i1 ≤ nKv → nKv ≤ i1 + fuel → s.taken i1 + (nh - nf) = s.taken nKv →
    (cont = true → 0 < s.nMoves ∧ ∃ j, i1 = j + 1 ∧ Moves s.ids j ∧
      s.ids.getD j 0 + 1 = i0 + nf) →
    ∃ result stop front, moveCells nKv nUsed maxMoves i0 nh fuel i1 nf cont s = (result, stop) ∧
      Defrag.Inv cells nKv nUsed front result ∧
      (stop = true → result.nMoves = maxMoves) ∧ (stop = false → front = i0 + nh) ∧
      (result.head = s.head ∨ result.head = nUsed) := by
  intro fuel
  induction fuel with
  | zero =>
      intro i1 nf cont s _ few _ _ high enough total _
      have same : i1 = nKv := by omega
      rw [same] at total
      omega
  | succ fuel ih =>
      intro i1 nf cont s inv few hole low high enough total going
      have more : i1 < nKv := by
        by_contra ends
        have same : i1 = nKv := by omega
        rw [same] at total
        omega
      have step : s.taken (i1 + 1) = s.taken i1 +
          if KvCell.Taken (s.cells.getD i1 {}) then 1 else 0 := Nat.count_succ _ _
      rw [moveCells, if_neg (by omega)]
      by_cases passed : s.passed nKv i1 = true
      · rw [if_pos passed]
        split_ifs with limit
        · exact ⟨s, true, i0 + nf, rfl, inv, fun _ => limit, fun none => absurd none (by simp),
            Or.inl rfl⟩
        · rw [if_neg ((inv.passed_iff low more).mp passed)] at step
          exact ih (i1 + 1) nf false s inv few hole (by omega) (by omega) (by omega) (by omega)
            (fun none => absurd none (by simp))
      · rw [if_neg passed]
        have held : KvCell.Taken (s.cells.getD i1 {}) := by
          by_contra free
          exact passed ((inv.passed_iff low more).mpr free)
        have free := hole (i0 + nf) (Nat.le_refl _) (by omega)
        have kept := inv.kept
        have size := inv.length
        have some : 0 < if cont = true then s.nMoves else s.nMoves + 1 := by
          split_ifs with block
          · exact (going block).1
          · exact Nat.succ_pos _
        have untouched : ¬ Moves s.ids i1 := by
          refine inv.not_moves ?_
          simp only [Defrag.passed, Bool.or_eq_true, not_or, bne_iff_ne, ne_eq, not_not] at passed
          exact passed.2
        have inIds : i1 < s.ids.length := by rwa [inv.ids]
        have target : (s.ids.set i1 (i0 + nf)).getD i1 0 = i0 + nf := by simp [inIds]
        have budget : Budget (s.ids.set i1 (i0 + nf))
            (if cont = true then s.nMoves else s.nMoves + 1) := by
          split_ifs with block
          · obtain ⟨_, j, behind, moves, before⟩ := going block
            refine inv.budget.set_of_not untouched fun starts => starts.2 j behind
              ((moves_set (by omega)).mpr moves) ?_
            rw [target, getD_set_of_ne (by omega), before]
          · exact inv.budget.set untouched
        have next := inv.fill (by omega) free low more held some budget
        generalize (if cont = true then s.nMoves else s.nMoves + 1) = nMoves at next some budget ⊢
        change ∃ result stop front, (if nf + 1 = nh then (s.moved (i0 + nf) i1 nUsed nMoves, false)
          else moveCells nKv nUsed maxMoves i0 nh fuel (i1 + 1) (nf + 1) true
            (s.moved (i0 + nf) i1 nUsed nMoves)) = (result, stop) ∧ _
        split_ifs with last
        · exact ⟨_, false, i0 + nf + 1, rfl, next, fun none => absurd none (by simp), fun _ => by omega,
            Or.inr rfl⟩
        · have cellsNow := s.moved_cells (show i0 + nf < s.cells.length by omega)
            (show i1 < s.cells.length by omega) nUsed nMoves
          have counts : ∀ n, i1 < n → (s.moved (i0 + nf) i1 nUsed nMoves).taken n = s.taken n := by
            intro n behind
            unfold Defrag.taken
            rw [← @count_fill KvCell KvCell.Taken {} _ (fun k => s.cells.getD k {}) (i0 + nf) i1 n
              not_taken_empty (by omega) free held (by omega) behind, ← cellsNow]
          rw [if_pos held] at step
          obtain ⟨result, stop, front, run, good, stopped, ended, heads⟩ := ih (i1 + 1) (nf + 1) true
            (s.moved (i0 + nf) i1 nUsed nMoves) next (by omega) (fun k behind inHole => by
              have same := congrFun cellsNow k
              rw [Function.update_of_ne (by omega), Function.update_of_ne (by omega)] at same
              rw [same]
              exact hole k (by omega) inHole) (by omega) (by omega) (by omega)
            (by rw [counts _ (by omega), counts _ more]; omega)
            (fun _ => ⟨some, i1, rfl, ⟨by simpa [Defrag.moved] using inIds,
              by unfold Defrag.moved; rw [target]; omega,
              by unfold Defrag.moved; rw [target, List.length_set, inv.ids]; omega⟩,
              by unfold Defrag.moved; rw [target]; omega⟩)
          refine ⟨result, stop, front, run, good, stopped, ended, ?_⟩
          rcases heads with same | same
          · exact Or.inr same
          · exact Or.inr same

theorem defragLoop_spec : ∀ (fuel front : Nat) (s : Defrag), s.Inv cells nKv nUsed front →
    nUsed < front + fuel →
    ∃ result stopped, defragLoop nKv nUsed maxMoves fuel front s = some result ∧
      Defrag.Inv cells nKv nUsed stopped result ∧
      (result.nMoves = maxMoves ∨ stopped = nUsed) ∧
      (result.head = s.head ∨ result.head = nUsed) := by
  intro fuel
  induction fuel with
  | zero =>
      intro front s inv enough
      have inside := inv.compacting.inside
      omega
  | succ fuel ih =>
      intro front s inv enough
      have inside := inv.compacting.inside
      have under := inv.compacting.under
      rw [defragLoop]
      by_cases done : nUsed ≤ front
      · rw [if_pos done]
        exact ⟨s, front, rfl, inv, Or.inr (by omega), Or.inl rfl⟩
      · have more : front < nUsed := by omega
        rw [if_neg done]
        by_cases held : KvCell.Taken (s.cells.getD front {})
        · rw [if_pos (by rw [held, Bool.not_false])]
          exact ih (front + 1) _ (inv.keep more held) (by omega)
        · rw [if_neg (by simpa [KvCell.Taken] using held)]
          have longer := holeEnd_gt more held
          obtain ⟨_, most, hole⟩ := holeEnd_spec s.cells nUsed (nUsed - front) front inside
            (by omega)
          obtain ⟨nh, size⟩ : ∃ nh, holeEnd nUsed s.cells (nUsed - front) front = front + nh :=
            ⟨_, (Nat.add_sub_cancel' (Nat.le_of_lt longer)).symm⟩
          rw [size] at longer most hole
          rw [size, Nat.add_sub_cancel_left]
          have room : s.taken nUsed + nh ≤ s.taken nKv := by
            have enough := inv.compacting.enough hole most (by omega)
            rwa [Nat.add_sub_cancel_left] at enough
          obtain ⟨found, back, late, early, total⟩ := findBack_spec inv more room (nKv - 1) 0
            (by omega) (by omega) (by rw [Nat.sub_add_cancel (by omega), Nat.add_zero])
          obtain ⟨next, stop, now, run, good, stopped, ended, heads⟩ := moveCells_spec most
            (nKv - found) found 0 false s inv (by omega) hole late (by omega) (by omega)
            (by rwa [Nat.sub_zero]) (fun none => absurd none (by simp))
          dsimp only
          rw [back]
          dsimp only
          rw [if_neg (fun other => other rfl), run]
          dsimp only
          split_ifs with limit
          · refine ⟨next, now, rfl, good, Or.inl ?_, heads⟩
            rcases Bool.or_eq_true_iff.mp limit with stops | equal
            · exact stopped stops
            · exact beq_iff_eq.mp equal
          · have place : now = front + nh := ended (by
              cases stop
              · rfl
              · exact absurd rfl limit)
            rw [place] at good
            obtain ⟨result, final, run, good, stopped, heads'⟩ := ih (front + nh) next good (by omega)
            refine ⟨result, final, run, good, stopped, ?_⟩
            rcases heads' with same | same
            · rw [same]
              exact heads
            · exact Or.inr same

end Loops

/-! ## The copies follow the cells -/

section Copies

variable {ids : List Nat} {full : Nat}

/-- What moves goes from the back to the front, each to a place of its own. -/
structure Backward (ids : List Nat) (full : Nat) : Prop where
  back : ∀ i, Moves ids i → full ≤ i
  front : ∀ i, Moves ids i → ids.getD i 0 < full
  apart : ∀ i j, Moves ids i → Moves ids j → ids.getD i 0 = ids.getD j 0 → i = j

theorem runLength_spec (ids : List Nat) (i id : Nat) : ∀ (fuel nm : Nat),
    (∀ k < nm, i + k < ids.length ∧ ids.getD (i + k) 0 = id + k) →
    nm ≤ runLength ids i id fuel nm ∧
      ∀ k < runLength ids i id fuel nm, i + k < ids.length ∧ ids.getD (i + k) 0 = id + k := by
  intro fuel
  induction fuel with
  | zero => exact fun nm run => ⟨Nat.le_refl nm, run⟩
  | succ fuel ih =>
      intro nm run
      rw [runLength]
      split_ifs with more
      · simp only [Bool.and_eq_true, decide_eq_true_eq, beq_iff_eq] at more
        obtain ⟨longer, good⟩ := ih (nm + 1) (fun k less => by
          rcases Nat.lt_or_ge k nm with early | late
          · exact run k early
          · have same : k = nm := by omega
            rw [same]
            exact more)
        exact ⟨by omega, good⟩
      · exact ⟨Nat.le_refl nm, run⟩

/-- A block of moved cells is copied whole, and no row is overwritten before it is read. -/
theorem Backward.block (backward : Backward ids full) {i nm : Nat} (moves : Moves ids i)
    (run : ∀ k < nm, i + k < ids.length ∧ ids.getD (i + k) 0 = ids.getD i 0 + k) :
    ∀ k < nm, Moves ids (i + k) := by
  have early := backward.front i moves
  have late := backward.back i moves
  intro k less
  obtain ⟨inside, here⟩ := run k less
  exact ⟨inside, by omega, by omega⟩

theorem applyCopies_copyLoop {β : Type} (backward : Backward ids full) : ∀ (fuel i : Nat)
    (rows : Nat → β), ids.length ≤ i + fuel →
    (∀ k, i ≤ k → Moves ids k →
      applyCopies rows (copyLoop ids fuel i) (ids.getD k 0) = rows k) ∧
    ∀ j, (∀ k, i ≤ k → Moves ids k → ids.getD k 0 ≠ j) →
      applyCopies rows (copyLoop ids fuel i) j = rows j := by
  intro fuel
  induction fuel with
  | zero =>
      intro i rows enough
      exact ⟨fun k low moves => absurd moves.1 (by omega), fun j _ => rfl⟩
  | succ fuel ih =>
      intro i rows enough
      rw [copyLoop]
      dsimp only
      split_ifs with ends stays
      · exact ⟨fun k low moves => absurd moves.1 (by omega), fun j _ => rfl⟩
      · obtain ⟨moved, kept⟩ := ih (i + 1) rows (by omega)
        have later : ∀ k, i ≤ k → Moves ids k → i + 1 ≤ k := by
          intro k low moves
          rcases Nat.lt_or_ge i k with more | same
          · exact more
          · have here : k = i := by omega
            rw [here] at moves
            rcases stays with same | unmoved
            · exact absurd same.symm moves.2.1
            · exact absurd unmoved moves.2.2
        exact ⟨fun k low moves => moved k (later k low moves) moves,
          fun j free => kept j fun k low => free k (by omega)⟩
      · rw [not_or] at stays
        have moves : Moves ids i := ⟨by omega, fun same => stays.1 same.symm, stays.2⟩
        obtain ⟨some, run⟩ := runLength_spec ids i (ids.getD i 0) ids.length 1 (fun k less => by
          have first : k = 0 := by omega
          rw [first]
          exact ⟨moves.1, rfl⟩)
        generalize runLength ids i (ids.getD i 0) ids.length 1 = nm at some run
        have block := backward.block moves run
        obtain ⟨moved, kept⟩ := ih (i + nm)
          ((Copy.mk i (ids.getD i 0) nm).apply rows) (by omega)
        have inBlock : ∀ k, i ≤ k → k < i + nm →
            ids.getD k 0 = ids.getD i 0 + (k - i) ∧ Moves ids k := by
          intro k low high
          have here := (run (k - i) (by omega)).2
          have also := block (k - i) (by omega)
          rw [Nat.add_sub_cancel' low] at here also
          exact ⟨here, also⟩
        refine ⟨fun k low also => ?_, fun j free => ?_⟩
        · rcases Nat.lt_or_ge k (i + nm) with early | late
          · obtain ⟨target, _⟩ := inBlock k low early
            refine (kept _ fun other beyond moves' same => ?_).trans ?_
            · have equal := backward.apart other k moves' also same
              omega
            · rw [Copy.apply, if_pos (by dsimp only; omega), target]
              congr 1
              dsimp only
              omega
          · refine (moved k late also).trans ?_
            have far := backward.back k also
            have near := backward.front _ (block (nm - 1) (by omega))
            rw [(run (nm - 1) (by omega)).2] at near
            rw [Copy.apply, if_neg (by dsimp only; omega)]
        · refine (kept j fun k beyond => free k (by omega)).trans ?_
          rw [Copy.apply, if_neg]
          rintro ⟨low, high⟩
          dsimp only at low high
          obtain ⟨target, moves'⟩ := inBlock (i + (j - ids.getD i 0)) (by omega) (by omega)
          exact free _ (by omega) moves' (by omega)

theorem runLength_stops (ids : List Nat) (i id : Nat) : ∀ (fuel nm : Nat),
    ids.length ≤ i + nm + fuel → i + runLength ids i id fuel nm < ids.length →
    ids.getD (i + runLength ids i id fuel nm) 0 ≠ id + runLength ids i id fuel nm := by
  intro fuel
  induction fuel with
  | zero =>
      intro nm enough inside
      rw [runLength] at inside
      omega
  | succ fuel ih =>
      intro nm enough inside
      rw [runLength] at inside ⊢
      split_ifs at inside ⊢ with more
      · exact ih (nm + 1) (by omega) inside
      · simp only [Bool.and_eq_true, decide_eq_true_eq, beq_iff_eq, not_and] at more
        exact more inside

/-- The copies are the blocks, from the front to the back, and none overlaps itself. -/
theorem copyLoop_starts (backward : Backward ids full) : ∀ (fuel i : Nat),
    ids.length ≤ i + fuel →
    (∀ j, i = j + 1 → Moves ids j → ids.getD i 0 ≠ ids.getD j 0 + 1) →
    (∀ copy ∈ copyLoop ids fuel i, i ≤ copy.src ∧ Starts ids copy.src ∧
      copy.dst + copy.nm ≤ full ∧ full ≤ copy.src ∧ copy.src + copy.nm ≤ ids.length) ∧
    (copyLoop ids fuel i).Pairwise fun copy later => copy.src < later.src := by
  intro fuel
  induction fuel with
  | zero => exact fun i _ _ => ⟨fun copy member => absurd member List.not_mem_nil, List.Pairwise.nil⟩
  | succ fuel ih =>
      intro i enough first
      rw [copyLoop]
      dsimp only
      split_ifs with ends stays
      · exact ⟨fun copy member => absurd member List.not_mem_nil, List.Pairwise.nil⟩
      · have still : ¬ Moves ids i := by
          rintro ⟨_, other, some⟩
          rcases stays with same | unmoved
          · exact other same.symm
          · exact some unmoved
        obtain ⟨all, order⟩ := ih (i + 1) (by omega) (fun j next moves => by
          have same : j = i := by omega
          exact absurd (same ▸ moves) still)
        refine ⟨fun copy member => ?_, order⟩
        obtain ⟨behind, rest⟩ := all copy member
        exact ⟨by omega, rest⟩
      · rw [not_or] at stays
        have moves : Moves ids i := ⟨by omega, fun same => stays.1 same.symm, stays.2⟩
        obtain ⟨some, run⟩ := runLength_spec ids i (ids.getD i 0) ids.length 1 (fun k less => by
          have first : k = 0 := by omega
          rw [first]
          exact ⟨moves.1, rfl⟩)
        have stops := runLength_stops ids i (ids.getD i 0) ids.length 1 (by omega)
        generalize runLength ids i (ids.getD i 0) ids.length 1 = nm at some run stops
        have block := backward.block moves run
        obtain ⟨inside, lastTarget⟩ := run (nm - 1) (by omega)
        have last := block (nm - 1) (by omega)
        have near := backward.front _ last
        obtain ⟨all, order⟩ := ih (i + nm) (by omega) (fun j next moves' => by
          have same : j = i + (nm - 1) := by omega
          rw [same, lastTarget]
          rcases Nat.lt_or_ge (i + nm) ids.length with more | beyond
          · have apart := stops more
            omega
          · rw [List.getD_eq_default _ _ beyond]
            omega)
        refine ⟨fun copy member => ?_, List.Pairwise.cons (fun later member => ?_) order⟩
        · rcases List.mem_cons.mp member with rfl | later
          · have far := backward.back i moves
            exact ⟨Nat.le_refl i, ⟨moves, first⟩, by dsimp only; omega, far, by dsimp only; omega⟩
          · obtain ⟨behind, rest⟩ := all copy later
            exact ⟨by omega, rest⟩
        · have behind := (all later member).1
          dsimp only
          omega

theorem Budget.copies {n : Nat} (budget : Budget ids n) (backward : Backward ids full) :
    (buildDefrag ids).length ≤ n := by
  obtain ⟨blocks, few, known⟩ := budget
  obtain ⟨all, order⟩ := copyLoop_starts backward ids.length 0 (by omega)
    (fun j next => by omega)
  have distinct : ((buildDefrag ids).map Copy.src).Nodup :=
    List.pairwise_map.mpr (order.imp fun less => Nat.ne_of_lt less)
  calc (buildDefrag ids).length
      = ((buildDefrag ids).map Copy.src).toFinset.card := by
        rw [List.toFinset_card_of_nodup distinct, List.length_map]
    _ ≤ blocks.card := by
        refine Finset.card_le_card fun src member => ?_
        obtain ⟨copy, here, rfl⟩ := List.mem_map.mp (List.mem_toFinset.mp member)
        exact known _ (all copy here).2.1
    _ ≤ n := few

end Copies

/-! ## The number of moves -/

section Moves

variable {nKv nUsed maxMoves : Nat}

theorem moveCells_nMoves {i0 nh : Nat} : ∀ (fuel i1 nf : Nat) (cont : Bool) (s : Defrag),
    s.nMoves ≤ maxMoves → (cont = false → s.nMoves < maxMoves) →
    (moveCells nKv nUsed maxMoves i0 nh fuel i1 nf cont s).1.nMoves ≤ maxMoves := by
  intro fuel
  induction fuel with
  | zero => exact fun _ _ _ _ most _ => most
  | succ fuel ih =>
      intro i1 nf cont s most room
      rw [moveCells]
      dsimp only
      split_ifs with ends passed limit last block block
      · exact most
      · exact most
      · exact ih _ _ _ _ most fun _ => by omega
      · exact most
      · exact room (by simpa using block)
      · exact ih _ _ _ _ most fun none => absurd none (by simp)
      · exact ih _ _ _ _ (room (by simpa using block)) fun none => absurd none (by simp)

theorem defragLoop_nMoves : ∀ (fuel i0 : Nat) (s result : Defrag), s.nMoves < maxMoves →
    defragLoop nKv nUsed maxMoves fuel i0 s = some result → result.nMoves ≤ maxMoves := by
  intro fuel
  induction fuel with
  | zero => exact fun _ _ _ _ run => by simp [defragLoop] at run
  | succ fuel ih =>
      intro i0 s result room run
      rw [defragLoop] at run
      dsimp only at run
      split_ifs at run with ends held short stop
      · rw [← Option.some.inj run]
        exact Nat.le_of_lt room
      · exact ih (i0 + 1) { s with ids := s.ids.set i0 i0 } result room run
      · rw [← Option.some.inj run]
        exact moveCells_nMoves _ _ _ _ _ (Nat.le_of_lt room) fun _ => room
      · refine ih _ _ _ (Nat.lt_of_le_of_ne ?_ fun limit => stop ?_) run
        · exact moveCells_nMoves _ _ _ _ _ (Nat.le_of_lt room) fun _ => room
        · rw [limit, beq_self_eq_true, Bool.or_true]

end Moves

section Rows

variable {cells : List KvCell} {nKv nUsed front : Nat} {s : Defrag}

theorem Defrag.Inv.moves (inv : s.Inv cells nKv nUsed front) {i : Nat} (moves : Moves s.ids i) :
    nUsed ≤ i ∧ s.ids.getD i nKv < front ∧
      ¬ KvCell.Taken (cells.getD (s.ids.getD i nKv) {}) := by
  have inside := inv.compacting.inside
  obtain ⟨less, other, some⟩ := moves
  rw [getD_inside less 0 nKv] at other some
  rw [inv.ids] at less some
  rcases Nat.lt_or_ge i front with early | late
  · rcases inv.compacting.done i early with ⟨stays, _⟩ | ⟨untouched, _⟩
    · exact absurd stays other
    · exact absurd untouched some
  · rcases Nat.lt_or_ge i nUsed with middle | back
    · exact absurd (inv.compacting.ahead i late middle).1 some
    · rcases inv.compacting.back i back less with ⟨untouched, _⟩ | ⟨went, free, _⟩
      · exact absurd untouched some
      · exact ⟨back, went, free⟩

theorem Defrag.Inv.backward (inv : s.Inv cells nKv nUsed front) : Backward s.ids nUsed := by
  have inside := inv.compacting.inside
  have same : ∀ i, Moves s.ids i → s.ids.getD i 0 = s.ids.getD i nKv :=
    fun i moves => getD_inside moves.1 0 nKv
  refine ⟨fun i moves => (inv.moves moves).1, fun i moves => ?_, fun i j moves moves' equal => ?_⟩
  · have early := (inv.moves moves).2.1
    rw [same i moves]
    omega
  · rw [same i moves, same j moves'] at equal
    exact inv.compacting.apart i j (inv.moves moves).1 (inv.ids ▸ moves.1) (inv.moves moves').1
      (inv.ids ▸ moves'.1) (inv.moves moves).2.1 equal

/-- The row of each cell that holds a token is where the cell went. -/
theorem Defrag.Inv.rows {β : Type} (inv : s.Inv cells nKv nUsed front) (rows : Nat → β) {i : Nat}
    (held : KvCell.Taken (cells.getD i {})) :
    applyCopies rows (buildDefrag s.ids) (place (fun k => s.ids.getD k nKv) nKv i) = rows i := by
  obtain ⟨moved, kept⟩ := applyCopies_copyLoop inv.backward s.ids.length 0 rows (by omega)
  have inside := inv.compacting.inside
  have under := inv.compacting.under
  by_cases moves : Moves s.ids i
  · have went := (inv.moves moves).2.1
    rw [place, if_pos (by omega), getD_inside moves.1 nKv 0]
    exact moved i (Nat.zero_le i) moves
  · have stays : place (fun k => s.ids.getD k nKv) nKv i = i := by
      rw [place]
      split_ifs with known
      · have less : i < s.ids.length := by
          by_contra beyond
          rw [List.getD_eq_default _ _ (Nat.le_of_not_lt beyond)] at known
          exact Nat.lt_irrefl _ known
        by_contra other
        rw [getD_inside less nKv 0] at known other
        exact moves ⟨less, other, by rw [inv.ids]; omega⟩
      · rfl
    rw [stays]
    refine kept i fun k _ moves' same => (inv.moves moves').2.2 ?_
    rw [getD_inside moves'.1 nKv 0, same]
    exact held

/-- Without a move there is nothing to copy. -/
theorem Defrag.Inv.rowsNow {β : Type} (inv : s.Inv cells nKv nUsed front) (rows : Nat → β)
    {i : Nat} (held : KvCell.Taken (cells.getD i {})) :
    (if s.nMoves != 0 then applyCopies rows (buildDefrag s.ids) else rows)
      (place (fun k => s.ids.getD k nKv) nKv i) = rows i := by
  split_ifs with moved
  · exact inv.rows rows held
  · congr 1
    rw [place]
    split_ifs with known
    · rcases inv.still (by simpa using moved) i with stays | untouched
      · exact stays
      · omega
    · rfl

end Rows

end MineGPT.Kv
