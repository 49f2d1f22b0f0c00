import MineGPT.Kv.Operations

/-!
# What the cache holds

Where a token stands in the cache makes no difference to what it is for.  An `Entry`
is a cell that holds one, with its row, and the entries of a cache are a multiset:
an operation on sequences changes them one by one, a micro-batch adds some,
defragmenting changes nothing.

`Consistent` is what the operations keep of the cells and the counters.
-/

set_option autoImplicit false

namespace MineGPT.Kv

open MineGPT.Lib.Places MineGPT.Lib.Compaction

structure Entry (β : Type) where
  pos : Int
  delta : Int
  seqId : Finset Int
  row : β

section Entries

variable {β : Type}

namespace Entry

def Selected (e : Entry β) (seqId p0 p1 : Int) : Prop :=
  seqId ∈ e.seqId ∧ p0 ≤ e.pos ∧ e.pos < p1

instance (e : Entry β) (seqId p0 p1 : Int) : Decidable (e.Selected seqId p0 p1) :=
  inferInstanceAs (Decidable (_ ∧ _))

/-- `seqId < 0` is every sequence. -/
def remove (seqId p0 p1 : Int) (e : Entry β) : Option (Entry β) :=
  if p0 ≤ e.pos ∧ e.pos < p1 then
    let left := if seqId < 0 then ∅ else e.seqId.erase seqId
    if left = ∅ then none else some { e with seqId := left }
  else some e

def copy (src dst p0 p1 : Int) (e : Entry β) : Option (Entry β) :=
  some (if e.Selected src p0 p1 then { e with seqId := insert dst e.seqId } else e)

def keep (seqId : Int) (e : Entry β) : Option (Entry β) :=
  if seqId ∈ e.seqId then some { e with seqId := {seqId} } else none

def add (seqId p0 p1 delta : Int) (e : Entry β) : Option (Entry β) :=
  if e.Selected seqId p0 p1 then
    if e.pos + delta < 0 then none
    else some { e with pos := e.pos + delta, delta := e.delta + delta }
  else some e

def divide (seqId p0 p1 d : Int) (e : Entry β) : Option (Entry β) :=
  some (if e.Selected seqId p0 p1 then
      { e with pos := e.pos / d, delta := e.delta + (e.pos / d - e.pos) }
    else e)

end Entry

def KvCell.toEntry (cell : KvCell) (row : β) : Entry β :=
  { pos := cell.pos, delta := cell.delta, seqId := cell.seqId, row := row }

def KvCell.entry (cell : KvCell) (row : β) : Option (Entry β) :=
  if cell.seqId = ∅ then none else some (cell.toEntry row)

theorem isSome_entry (cell : KvCell) (row : β) : (cell.entry row).isSome ↔ cell.Taken := by
  unfold KvCell.entry KvCell.Taken KvCell.isEmpty
  split_ifs with empty <;> simp [empty]

def KvStore.contentAt (kv : KvStore β) (i : Nat) : Option (Entry β) :=
  (kv.cache.cellAt i).entry (kv.rows i)

def KvStore.entries (kv : KvStore β) : Multiset (Entry β) := held kv.contentAt kv.cache.size

/-! ## The cells one by one -/

/-- A free cell has no position, a taken one has. -/
def KvCell.Sane (cell : KvCell) : Prop :=
  cell.seqId = ∅ ∧ cell.pos = -1 ∨ cell.seqId ≠ ∅ ∧ 0 ≤ cell.pos

theorem KvCell.Sane.taken {cell : KvCell} (sane : cell.Sane) : cell.Taken ↔ 0 ≤ cell.pos := by
  unfold KvCell.Taken KvCell.isEmpty
  rcases sane with ⟨empty, pos⟩ | ⟨full, pos⟩
  · simp [empty, pos]
  · simp [full, pos]

structure KvCache.Consistent (kv : KvCache) : Prop where
  length : kv.cells.length = kv.size
  sane : ∀ cell ∈ kv.cells, cell.Sane
  used : kv.used = kv.cells.countP fun cell => cell.Taken
  head : kv.head ≤ kv.size

/-- `f` is `change` on what a cell holds, and `freed` tells which cells it frees. -/
structure Cellwise (f : KvCell → KvCell) (freed : KvCell → Bool)
    (change : ∀ {β : Type}, Entry β → Option (Entry β)) : Prop where
  sane : ∀ cell, cell.Sane → (f cell).Sane
  freed : ∀ cell, cell.Sane → (freed cell = true ↔ cell.Taken ∧ ¬ (f cell).Taken)
  entry : ∀ cell {β : Type} (row : β), cell.Sane → (f cell).entry row = (cell.entry row).bind change

theorem Cellwise.taken {f : KvCell → KvCell} {freed : KvCell → Bool}
    {change : ∀ {β : Type}, Entry β → Option (Entry β)} (cellwise : Cellwise f freed change)
    {cell : KvCell} (sane : cell.Sane) (after : (f cell).Taken) : cell.Taken := by
  rw [← isSome_entry _ (), cellwise.entry cell () sane] at after
  rw [← isSome_entry _ ()]
  cases held : cell.entry () with
  | none => simp [held] at after
  | some entry => rfl

theorem Cellwise.count {f : KvCell → KvCell} {freed : KvCell → Bool}
    {change : ∀ {β : Type}, Entry β → Option (Entry β)} (cellwise : Cellwise f freed change) :
    ∀ {cells : List KvCell}, (∀ cell ∈ cells, cell.Sane) →
      (cells.map f).countP (fun cell => cell.Taken) + cells.countP freed =
        cells.countP fun cell => cell.Taken := by
  intro cells
  induction cells with
  | nil => intro _; rfl
  | cons cell rest ih =>
      intro sane
      have here := sane cell (by simp)
      have later := ih fun other member => sane other (by simp [member])
      have freed := cellwise.freed cell here
      have stays := cellwise.taken here
      simp only [List.map_cons, List.countP_cons, decide_eq_true_eq]
      by_cases before : cell.Taken
      · by_cases after : (f cell).Taken
        · have kept : ¬ _ = true := fun gone => (freed.mp gone).2 after
          rw [if_pos after, if_pos before, if_neg kept]
          omega
        · rw [if_neg after, if_pos before, if_pos (freed.mpr ⟨before, after⟩)]
          omega
      · have kept : ¬ _ = true := fun gone => before (freed.mp gone).1
        rw [if_neg (fun after => before (stays after)), if_neg before, if_neg kept]
        omega

theorem KvCache.cellAt_of_lt {kv : KvCache} {i : Nat} (less : i < kv.cells.length) :
    kv.cellAt i = kv.cells[i] := List.getD_eq_getElem _ _ less

theorem KvCache.Consistent.cellwise {kv : KvCache} (consistent : kv.Consistent)
    {f : KvCell → KvCell} {freed : KvCell → Bool}
    {change : ∀ {β : Type}, Entry β → Option (Entry β)} (cellwise : Cellwise f freed change)
    {head : Nat} (inside : head ≤ kv.size) :
    Consistent { kv with
      cells := kv.cells.map f
      used := kv.used - kv.cells.countP freed
      head := head } where
  length := by rw [← consistent.length, List.length_map]
  sane := by
    intro cell member
    obtain ⟨before, known, rfl⟩ := List.mem_map.mp member
    exact cellwise.sane before (consistent.sane before known)
  used := by
    have count := cellwise.count consistent.sane
    have used := consistent.used
    dsimp only
    omega
  head := inside

theorem KvCache.Consistent.cellwise_kept {kv : KvCache} (consistent : kv.Consistent)
    {f : KvCell → KvCell} {change : ∀ {β : Type}, Entry β → Option (Entry β)}
    (cellwise : Cellwise f (fun _ => false) change) {head : Nat} (inside : head ≤ kv.size) :
    Consistent { kv with cells := kv.cells.map f, head := head } := by
  have kept := consistent.cellwise cellwise inside
  have none : kv.cells.countP (fun _ => false) = 0 := by simp
  rwa [none, Nat.sub_zero] at kept

theorem entries_cellwise {kv : KvStore β} (consistent : kv.cache.Consistent)
    {f : KvCell → KvCell} {freed : KvCell → Bool}
    {change : ∀ {β : Type}, Entry β → Option (Entry β)} (cellwise : Cellwise f freed change)
    {after : KvStore β} (rows : after.rows = kv.rows) (size : after.cache.size = kv.cache.size)
    (cells : after.cache.cells = kv.cache.cells.map f) :
    after.entries = kv.entries.filterMap change := by
  rw [KvStore.entries, KvStore.entries, ← held_bind, size]
  apply held_congr
  intro i inside
  have less : i < kv.cache.cells.length := by rwa [consistent.length]
  have here : after.cache.cellAt i = f (kv.cache.cellAt i) := by
    rw [KvCache.cellAt_of_lt less, KvCache.cellAt_of_lt (by rw [cells]; simpa using less)]
    simp [cells]
  rw [KvStore.contentAt, here, rows, cellwise.entry]
  · rfl
  · rw [KvCache.cellAt_of_lt less]
    exact consistent.sane _ (List.getElem_mem less)

end Entries

/-! ## The operations -/

theorem rangeBegin_nonneg (p0 : Int) : 0 ≤ rangeBegin p0 := by
  unfold rangeBegin
  split_ifs <;> omega

section Operations

variable {β : Type}

theorem selected_iff (cell : KvCell) (seqId p0 p1 : Int) :
    cell.selected seqId p0 p1 = true ↔ seqId ∈ cell.seqId ∧ p0 ≤ cell.pos ∧ cell.pos < p1 := by
  simp [KvCell.selected, KvCell.hasSeqId, and_assoc]

theorem entry_none {cell : KvCell} (empty : cell.seqId = ∅) (row : β) : cell.entry row = none :=
  if_pos empty

theorem entry_some {cell : KvCell} (full : cell.seqId ≠ ∅) (row : β) :
    cell.entry row = some (cell.toEntry row) :=
  if_neg full

theorem selected_toEntry (cell : KvCell) (row : β) (seqId p0 p1 : Int) :
    (cell.toEntry row).Selected seqId p0 p1 ↔ cell.selected seqId p0 p1 = true :=
  (selected_iff cell seqId p0 p1).symm

theorem taken_iff (cell : KvCell) : cell.Taken ↔ cell.seqId ≠ ∅ := by
  simp [KvCell.Taken, KvCell.isEmpty]

theorem cellwise_clear : Cellwise
    (fun cell => { cell with pos := -1, seqId := ∅, src := -1, tail := -1 })
    (fun cell => cell.Taken) (fun _ => none) where
  sane := fun _ _ => Or.inl ⟨rfl, rfl⟩
  freed := fun cell _ => by simp [taken_iff]
  entry := fun cell _ row _ => by
    rw [entry_none rfl]
    cases cell.entry row <;> rfl

theorem cellwise_copy (src dst p0 p1 : Int) :
    Cellwise (fun cell => cell.copy src dst p0 p1) (fun _ => false) (Entry.copy src dst p0 p1) where
  sane := fun cell sane => by
    unfold KvCell.copy
    split_ifs with selected
    · obtain ⟨member, _⟩ := (selected_iff ..).mp selected
      rcases sane with ⟨empty, _⟩ | ⟨_, pos⟩
      · simp [empty] at member
      · exact Or.inr ⟨Finset.insert_ne_empty _ _, pos⟩
    · exact sane
  freed := fun cell _ => by
    unfold KvCell.copy
    split_ifs <;> simp [taken_iff]
  entry := fun cell _ row _ => by
    unfold KvCell.copy
    by_cases full : cell.seqId = ∅
    · rw [entry_none full, if_neg (by simp [selected_iff, full]), entry_none full]
      rfl
    · rw [entry_some full, Option.bind_some, Entry.copy]
      by_cases selected : cell.selected src p0 p1 = true
      · rw [if_pos selected, if_pos ((selected_toEntry cell row _ _ _).mpr selected)]
        exact entry_some (Finset.insert_ne_empty _ _) row
      · rw [if_neg selected, if_neg (mt (selected_toEntry cell row _ _ _).mp selected)]
        exact entry_some full row

theorem cellwise_keep (seqId : Int) :
    Cellwise (fun cell => cell.keep seqId) (fun cell => !cell.hasSeqId seqId && 0 ≤ cell.pos)
      (Entry.keep seqId) where
  sane := fun cell sane => by
    unfold KvCell.keep KvCell.hasSeqId
    split_ifs with member
    · rcases sane with ⟨empty, _⟩ | ⟨_, pos⟩
      · simp [empty] at member
      · exact Or.inr ⟨Finset.singleton_ne_empty _, pos⟩
    · exact Or.inl ⟨rfl, rfl⟩
  freed := fun cell sane => by
    have held := sane.taken
    unfold KvCell.keep KvCell.hasSeqId
    by_cases member : seqId ∈ cell.seqId
    · simp [member, taken_iff]
    · simp [member, taken_iff, ← held]
  entry := fun cell _ row _ => by
    unfold KvCell.keep KvCell.hasSeqId
    by_cases full : cell.seqId = ∅
    · rw [entry_none full, if_neg (by simp [full]), entry_none rfl]
      rfl
    · rw [entry_some full, Option.bind_some, Entry.keep]
      by_cases member : seqId ∈ cell.seqId
      · rw [if_pos (by simpa using member), if_pos (by exact member)]
        exact entry_some (Finset.singleton_ne_empty _) row
      · rw [if_neg (by simpa using member), if_neg (by exact member)]
        exact entry_none rfl row

theorem cellwise_add (seqId p0 p1 delta : Int) :
    Cellwise (fun cell => cell.add seqId p0 p1 delta)
      (fun cell => cell.shiftedOut seqId p0 p1 delta) (Entry.add seqId p0 p1 delta) where
  sane := fun cell sane => by
    unfold KvCell.add
    split_ifs with selected out
    · exact Or.inl ⟨rfl, rfl⟩
    · rcases sane with ⟨empty, _⟩ | ⟨full, _⟩
      · simp [selected_iff, empty] at selected
      · exact Or.inr ⟨full, by dsimp only; omega⟩
    · exact sane
  freed := fun cell sane => by
    unfold KvCell.shiftedOut KvCell.add
    by_cases selected : cell.selected seqId p0 p1 = true
    · have member := ((selected_iff ..).mp selected).1
      have full : cell.seqId ≠ ∅ := Finset.ne_empty_of_mem member
      rw [if_pos selected, selected]
      split_ifs with out <;> simp [taken_iff, full, out]
    · rw [if_neg selected]
      simp [selected]
  entry := fun cell _ row _ => by
    unfold KvCell.add
    by_cases full : cell.seqId = ∅
    · rw [entry_none full, if_neg (by simp [selected_iff, full]), entry_none full]
      rfl
    · rw [entry_some full, Option.bind_some, Entry.add]
      by_cases selected : cell.selected seqId p0 p1 = true
      · rw [if_pos selected, if_pos ((selected_toEntry cell row _ _ _).mpr selected)]
        by_cases out : cell.pos + delta < 0
        · rw [if_pos out, if_pos (by exact out)]
          exact entry_none rfl row
        · rw [if_neg out, if_neg (by exact out)]
          exact if_neg full
      · rw [if_neg selected, if_neg (mt (selected_toEntry cell row _ _ _).mp selected)]
        exact entry_some full row

theorem cellwise_divide {p0 d : Int} (low : 0 ≤ p0) (positive : 0 < d) (seqId p1 : Int) :
    Cellwise (fun cell => cell.divide seqId p0 p1 d) (fun _ => false)
      (Entry.divide seqId p0 p1 d) where
  sane := fun cell sane => by
    unfold KvCell.divide
    split_ifs with selected
    · obtain ⟨_, above, _⟩ := (selected_iff ..).mp selected
      rcases sane with ⟨empty, _⟩ | ⟨full, pos⟩
      · simp [selected_iff, empty] at selected
      · exact Or.inr ⟨full, Int.tdiv_nonneg pos (Int.le_of_lt positive)⟩
    · exact sane
  freed := fun cell _ => by
    unfold KvCell.divide
    split_ifs <;> simp [taken_iff]
  entry := fun cell _ row _ => by
    unfold KvCell.divide
    by_cases full : cell.seqId = ∅
    · rw [entry_none full, if_neg (by simp [selected_iff, full]), entry_none full]
      rfl
    · rw [entry_some full, Option.bind_some, Entry.divide]
      by_cases selected : cell.selected seqId p0 p1 = true
      · obtain ⟨member, above, below⟩ := (selected_iff ..).mp selected
        have same : cell.pos.tdiv d = cell.pos / d :=
          Int.tdiv_eq_ediv_of_nonneg (by omega)
        rw [if_pos selected, if_pos ((selected_toEntry cell row _ _ _).mpr selected), same]
        exact if_neg full
      · rw [if_neg selected, if_neg (mt (selected_toEntry cell row _ _ _).mp selected)]
        exact entry_some full row

theorem cellwise_remove {p0 : Int} (low : 0 ≤ p0) (seqId p1 : Int) :
    Cellwise (fun cell => (cell.remove seqId p0 p1).1) (fun cell => (cell.remove seqId p0 p1).2)
      (Entry.remove seqId p0 p1) where
  sane := fun cell sane => by
    unfold KvCell.remove
    split_ifs with range all member last
    · exact Or.inl ⟨rfl, rfl⟩
    · exact Or.inl ⟨rfl, rfl⟩
    · exact Or.inr ⟨last, by dsimp only; omega⟩
    · exact sane
    · exact sane
  freed := fun cell sane => by
    have held := sane.taken
    unfold KvCell.remove
    split_ifs with range all member last
    · have taken : cell.Taken := held.mpr (by omega)
      simp [taken, taken_iff]
    · have taken : cell.Taken := held.mpr (by omega)
      simp [taken, taken_iff]
    · simp [taken_iff, last]
    · simp
    · simp
  entry := fun cell _ row sane => by
    unfold KvCell.remove
    by_cases full : cell.seqId = ∅
    · have free : ¬ (p0 ≤ cell.pos ∧ cell.pos < p1) := by
        rcases sane with ⟨_, pos⟩ | ⟨some, _⟩
        · omega
        · exact absurd full some
      rw [entry_none full, if_neg free, entry_none full]
      rfl
    · rw [entry_some full, Option.bind_some]
      by_cases range : p0 ≤ cell.pos ∧ cell.pos < p1
      · by_cases all : seqId < 0
        · simp [Entry.remove, KvCell.toEntry, range, all, entry_none]
        · by_cases member : seqId ∈ cell.seqId
          · by_cases last : cell.seqId.erase seqId = ∅
            · simp [Entry.remove, KvCell.toEntry, range, all, member, last, entry_none]
            · simp [Entry.remove, KvCell.toEntry, range, all, member, last, entry_some]
          · simp [Entry.remove, KvCell.toEntry, range, all, member, full, entry_some,
              Finset.erase_eq_of_notMem]
      · rw [if_neg range, Entry.remove, if_neg (by exact range)]
        exact entry_some full row

end Operations

end MineGPT.Kv
