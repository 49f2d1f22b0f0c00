import MineGPT.Lib.Writer

/-!
# Formats

A format says which bytes store a value.  A reader parses a format when it takes
exactly these bytes for the value, whatever follows them; beside that stands on which
bytes a reader aborts.  Both are known of a sequence of readers when they are known of
each.
-/

set_option autoImplicit false

namespace MineGPT.Lib.Reader

open ByteString

variable {ε α β γ : Type}

/-- The reader takes exactly the bytes that store the value. -/
def Parses (format : α → Bytes → Prop) (r : Reader ε α) : Prop :=
  ∀ bytes value rest,
    Yields r bytes value rest ↔ ∃ front, format value front ∧ bytes = front ++ rest

def Aborts (r : Reader ε α) (bytes : Bytes) : Prop := ∃ error, r bytes = .error error

def Concat (format : α → Bytes → Prop) : List α → Bytes → Prop
  | [], bytes => bytes = []
  | value :: later, bytes =>
    ∃ front back, format value front ∧ Concat format later back ∧ bytes = front ++ back

/-! ## Parsing -/

theorem Parses.congr {format other : α → Bytes → Prop} {r : Reader ε α} (parses : Parses format r)
    (same : ∀ value bytes, format value bytes ↔ other value bytes) : Parses other r := by
  intro bytes value rest
  simp only [parses bytes value rest, same]

theorem parses_pure (value : α) :
    Parses (fun result bytes => result = value ∧ bytes = []) (pure value : Reader ε α) := by
  intro bytes result rest
  rw [yields_pure]
  constructor
  · rintro ⟨rfl, rfl⟩
    exact ⟨[], ⟨rfl, rfl⟩, rfl⟩
  · rintro ⟨_, ⟨rfl, rfl⟩, rfl⟩
    exact ⟨rfl, rfl⟩

theorem parses_abort (error : ε) : Parses (fun _ _ => False) (abort error : Reader ε α) := by
  intro bytes value rest
  simp

theorem parses_take (n : Nat) :
    Parses (fun value bytes => value.val = bytes) (take n : Reader ε {b : Bytes // b.length = n}) := by
  intro bytes value rest
  constructor
  · intro read
    unfold Yields take at read
    split_ifs at read with enough
    · obtain ⟨rfl, rfl⟩ := Prod.mk.inj (Option.some.inj (Except.ok.inj read))
      exact ⟨bytes.take n, rfl, (List.take_append_drop n bytes).symm⟩
    · simp at read
  · rintro ⟨_, rfl, rfl⟩
    exact yields_take value.property rest

theorem littleEndian_lt : ∀ bytes : Bytes, littleEndian bytes < 256 ^ bytes.length
  | [] => by simp [littleEndian]
  | byte :: rest => by
      have first := byte.toNat_lt
      have later := littleEndian_lt rest
      rw [littleEndian, List.length_cons, Nat.pow_succ]
      omega

theorem leBytes_littleEndian : ∀ bytes : Bytes,
    leBytes bytes.length (littleEndian bytes) = bytes
  | [] => rfl
  | byte :: rest => by
      have first := byte.toNat_lt
      have quotient : (byte.toNat + 256 * littleEndian rest) / 256 = littleEndian rest := by omega
      have low : UInt8.ofNat (byte.toNat + 256 * littleEndian rest) = byte := by
        apply UInt8.toNat_inj.mp
        rw [UInt8.toNat_ofNat']
        omega
      rw [List.length_cons, littleEndian, leBytes, quotient, low, leBytes_littleEndian rest]

theorem parses_uint (n : Nat) :
    Parses (fun value bytes => value < 256 ^ n ∧ bytes = leBytes n value)
      (uint n : Reader ε Nat) := by
  intro bytes value rest
  constructor
  · intro read
    obtain ⟨taken, middle, readTaken, ended⟩ := yields_bind.mp read
    obtain ⟨front, rfl, rfl⟩ := (parses_take n _ _ _).mp readTaken
    obtain ⟨rfl, rfl⟩ := yields_pure.mp ended
    refine ⟨taken.val, ⟨?_, ?_⟩, rfl⟩
    · have bound := littleEndian_lt taken.val
      rwa [taken.property] at bound
    · have back := leBytes_littleEndian taken.val
      rw [taken.property] at back
      exact back.symm
  · rintro ⟨_, ⟨small, rfl⟩, rfl⟩
    exact yields_uint small rest

theorem Parses.bind {first : α → Bytes → Prop} {second : α → β → Bytes → Prop} {r : Reader ε α}
    {next : α → Reader ε β} (parses : Parses first r)
    (parsesNext : ∀ value, Parses (second value) (next value)) :
    Parses (fun result bytes => ∃ value front back,
      first value front ∧ second value result back ∧ bytes = front ++ back) (r >>= next) := by
  intro bytes result rest
  rw [yields_bind]
  constructor
  · rintro ⟨value, middle, read, readNext⟩
    obtain ⟨front, stored, rfl⟩ := (parses _ _ _).mp read
    obtain ⟨back, storedNext, rfl⟩ := (parsesNext value _ _ _).mp readNext
    exact ⟨front ++ back, ⟨value, front, back, stored, storedNext, rfl⟩,
      (List.append_assoc _ _ _).symm⟩
  · rintro ⟨_, ⟨value, front, back, stored, storedNext, rfl⟩, rfl⟩
    refine ⟨value, back ++ rest, (parses _ _ _).mpr ⟨front, stored, List.append_assoc _ _ _⟩, ?_⟩
    exact (parsesNext value _ _ _).mpr ⟨back, storedNext, rfl⟩

theorem Parses.unless {format : α → Bytes → Prop} {r : Reader ε α} {p : Prop} [Decidable p]
    (parses : ¬ p → Parses format r) :
    Parses (fun value bytes => ¬ p ∧ format value bytes) (if p then fail else r) := by
  intro bytes value rest
  split_ifs with check
  · simp [check]
  · simp only [parses check bytes value rest, check, not_false_eq_true, true_and]

theorem Parses.times {format : α → Bytes → Prop} {r : Reader ε α} (parses : Parses format r) :
    ∀ n : Nat, Parses (fun values bytes => values.length = n ∧ Concat format values bytes)
      (times n r)
  | 0 => by
      refine (parses_pure ([] : List α)).congr fun values bytes => ?_
      rw [List.length_eq_zero_iff]
      constructor
      · rintro ⟨rfl, rfl⟩
        exact ⟨rfl, rfl⟩
      · rintro ⟨rfl, empty⟩
        exact ⟨rfl, empty⟩
  | n + 1 => by
      refine (parses.bind fun value => (Parses.times parses n).bind fun later =>
        parses_pure (value :: later)).congr fun values bytes => ?_
      constructor
      · rintro ⟨value, front, _, stored, ⟨later, back, _, ⟨length, concat⟩, ⟨rfl, rfl⟩, rfl⟩, rfl⟩
        exact ⟨by rw [List.length_cons, length], front, back, stored, concat, by simp⟩
      · rintro ⟨length, concat⟩
        cases values with
        | nil => simp at length
        | cons value later =>
            obtain ⟨front, back, stored, concat, rfl⟩ := concat
            exact ⟨value, front, back, stored, ⟨later, back, [],
              ⟨Nat.succ.inj length, concat⟩, ⟨rfl, rfl⟩, (List.append_nil _).symm⟩, rfl⟩

theorem concat_iff {stored : α → Prop} {write : α → Bytes} :
    ∀ {values : List α} {bytes : Bytes},
      Concat (fun value bytes => stored value ∧ bytes = write value) values bytes ↔
        (∀ value ∈ values, stored value) ∧ bytes = values.flatMap write := by
  intro values
  induction values with
  | nil => simp [Concat]
  | cons value later ih =>
      intro bytes
      simp only [Concat, ih, List.forall_mem_cons, List.flatMap_cons]
      constructor
      · rintro ⟨_, _, ⟨here, rfl⟩, ⟨there, rfl⟩, rfl⟩
        exact ⟨⟨here, there⟩, rfl⟩
      · rintro ⟨⟨here, there⟩, rfl⟩
        exact ⟨_, _, ⟨here, rfl⟩, ⟨there, rfl⟩, rfl⟩

/-! ## Aborting -/

@[simp] theorem not_aborts_pure {value : α} {bytes : Bytes} :
    ¬ Aborts (pure value : Reader ε α) bytes := by
  simp [Aborts, pure, succeed]

@[simp] theorem not_aborts_fail {bytes : Bytes} : ¬ Aborts (fail : Reader ε α) bytes := by
  simp [Aborts, fail]

@[simp] theorem aborts_abort {error : ε} {bytes : Bytes} :
    Aborts (abort error : Reader ε α) bytes := ⟨error, rfl⟩

@[simp] theorem not_aborts_take {n : Nat} {bytes : Bytes} :
    ¬ Aborts (take n : Reader ε _) bytes := by
  rintro ⟨error, aborted⟩
  unfold take at aborted
  split_ifs at aborted

theorem aborts_bind {r : Reader ε α} {next : α → Reader ε β} {bytes : Bytes} :
    Aborts (r >>= next) bytes ↔
      Aborts r bytes ∨ ∃ value rest, Yields r bytes value rest ∧ Aborts (next value) rest := by
  show (∃ error, andThen r next bytes = _) ↔ _
  simp only [andThen, Yields, Aborts]
  cases first : r bytes with
  | error error => simp
  | ok read =>
      cases read with
      | none => simp
      | some pair => simp [Prod.ext_iff]

theorem aborts_ofExcept {outcome : Except ε α} {bytes : Bytes} :
    Aborts (ofExcept outcome) bytes ↔ ∃ error, outcome = .error error := by
  cases outcome with
  | error error => simp [Aborts, ofExcept, Except.map]
  | ok value => simp [Aborts, ofExcept, Except.map]

@[simp] theorem not_aborts_uint {n : Nat} {bytes : Bytes} :
    ¬ Aborts (uint n : Reader ε Nat) bytes := by
  rw [uint, aborts_bind]
  simp

theorem not_aborts_times {r : Reader ε α} (never : ∀ bytes, ¬ Aborts r bytes) :
    ∀ (n : Nat) (bytes : Bytes), ¬ Aborts (times n r) bytes
  | 0, _ => not_aborts_pure
  | n + 1, bytes => by
      rw [times, aborts_bind]
      rintro (aborted | ⟨value, rest, _, aborted⟩)
      · exact never bytes aborted
      · rw [aborts_bind] at aborted
        rcases aborted with aborted | ⟨_, _, _, aborted⟩
        · exact not_aborts_times never n rest aborted
        · exact not_aborts_pure aborted

/-! ## Items with distinct names -/

/-- A loop that reads so many items, each with the earlier ones at hand. -/
def collect (step : List α → Reader ε α) : Nat → List α → Reader ε (List α)
  | 0, earlier => pure earlier
  | n + 1, earlier => do
    let item ← step earlier
    collect step n (earlier ++ [item])

section Collect

variable {step : List α → Reader ε α} {name : α → γ} {format : α → Bytes → Prop}

theorem nodup_concat {earlier later : List α} {item : α} :
    ((earlier ++ item :: later).map name).Nodup ↔
      (((earlier ++ [item]) ++ later).map name).Nodup := by
  rw [List.append_assoc, List.singleton_append]

theorem yields_collect
    (parses : ∀ earlier,
      Parses (fun item bytes => name item ∉ earlier.map name ∧ format item bytes) (step earlier)) :
    ∀ (n : Nat) (earlier : List α) {bytes rest : Bytes} {all : List α},
      (earlier.map name).Nodup →
      (Yields (collect step n earlier) bytes all rest ↔
        ∃ later front, all = earlier ++ later ∧ later.length = n ∧
          ((earlier ++ later).map name).Nodup ∧ Concat format later front ∧
          bytes = front ++ rest) := by
  intro n
  induction n with
  | zero =>
      intro earlier bytes rest all distinct
      rw [collect, yields_pure]
      constructor
      · rintro ⟨rfl, rfl⟩
        exact ⟨[], [], by simp, rfl, by simpa using distinct, rfl, rfl⟩
      · rintro ⟨later, front, rfl, none, -, concat, rfl⟩
        obtain rfl := List.length_eq_zero_iff.mp none
        obtain rfl : front = [] := concat
        exact ⟨by simp, rfl⟩
  | succ n ih =>
      intro earlier bytes rest all distinct
      have grown : ∀ item, name item ∉ earlier.map name →
          ((earlier ++ [item]).map name).Nodup := by
        intro item fresh
        rw [List.map_append, List.map_singleton, List.nodup_append]
        refine ⟨distinct, List.pairwise_singleton _ _, fun one member other last => ?_⟩
        rw [List.mem_singleton.mp last]
        exact fun same => fresh (same ▸ member)
      rw [collect, yields_bind]
      constructor
      · rintro ⟨item, middle, read, readLater⟩
        obtain ⟨front, ⟨fresh, stored⟩, rfl⟩ := (parses earlier _ _ _).mp read
        obtain ⟨later, back, rfl, length, all, concat, rfl⟩ :=
          (ih _ (grown item fresh)).mp readLater
        exact ⟨item :: later, front ++ back, by simp, by rw [List.length_cons, length],
          nodup_concat.mpr all, ⟨front, back, stored, concat, rfl⟩, by simp⟩
      · rintro ⟨later, front, rfl, length, all, concat, rfl⟩
        cases later with
        | nil => simp at length
        | cons item later =>
            obtain ⟨front, back, stored, concat, rfl⟩ := concat
            have fresh : name item ∉ earlier.map name := by
              intro member
              rw [List.map_append, List.nodup_append] at all
              exact all.2.2 _ member _ (List.mem_map_of_mem (List.mem_cons_self ..)) rfl
            refine ⟨item, back ++ rest, (parses earlier _ _ _).mpr
              ⟨front, ⟨fresh, stored⟩, by simp⟩, ?_⟩
            exact (ih _ (grown item fresh)).mpr ⟨later, back, by simp,
              Nat.succ.inj length, nodup_concat.mp all, concat, rfl⟩

theorem aborts_collect
    (parses : ∀ earlier,
      Parses (fun item bytes => name item ∉ earlier.map name ∧ format item bytes) (step earlier)) :
    ∀ (n : Nat) (earlier : List α) {bytes : Bytes}, (earlier.map name).Nodup →
      (Aborts (collect step n earlier) bytes ↔
        ∃ later front rest, later.length < n ∧ ((earlier ++ later).map name).Nodup ∧
          Concat format later front ∧ Aborts (step (earlier ++ later)) rest ∧
          bytes = front ++ rest) := by
  intro n
  induction n with
  | zero =>
      intro earlier bytes distinct
      simp [collect]
  | succ n ih =>
      intro earlier bytes distinct
      have one : collect step 1 earlier = (do
          let item ← step earlier
          pure (earlier ++ [item])) := rfl
      rw [collect, aborts_bind]
      constructor
      · rintro (aborted | ⟨item, middle, read, aborted⟩)
        · exact ⟨[], [], bytes, by simp, by simpa using distinct, rfl, by simpa using aborted, rfl⟩
        · have single : Yields (collect step 1 earlier) bytes (earlier ++ [item]) middle := by
            rw [one, yields_bind]
            exact ⟨item, middle, read, yields_pure.mpr ⟨rfl, rfl⟩⟩
          obtain ⟨later, front, same, -, all, concat, rfl⟩ :=
            (yields_collect parses 1 earlier distinct).mp single
          obtain rfl := (List.append_cancel_left same).symm
          obtain ⟨later, back, rest, less, all, concatLater, stopped, rfl⟩ :=
            (ih _ all).mp aborted
          obtain ⟨first, last, stored, ended, rfl⟩ := concat
          obtain rfl : last = [] := ended
          refine ⟨item :: later, first ++ back, rest, by rw [List.length_cons]; omega,
            nodup_concat.mpr all, ⟨first, back, stored, concatLater, rfl⟩, ?_, by simp⟩
          rwa [List.append_assoc, List.singleton_append] at stopped
      · rintro ⟨later, front, rest, less, all, concat, aborted, rfl⟩
        cases later with
        | nil =>
            obtain rfl : front = [] := concat
            exact Or.inl (by simpa using aborted)
        | cons item later =>
            obtain ⟨front, back, stored, concat, rfl⟩ := concat
            have all' := nodup_concat.mp all
            have first : ((earlier ++ [item]).map name).Nodup := by
              rw [List.map_append, List.nodup_append] at all'
              exact all'.1
            have single : Yields (collect step 1 earlier) (front ++ back ++ rest)
                (earlier ++ [item]) (back ++ rest) :=
              (yields_collect parses 1 earlier distinct).mpr ⟨[item], front, rfl, rfl, first,
                ⟨front, [], stored, rfl, by simp⟩, by simp⟩
            rw [one, yields_bind] at single
            obtain ⟨item', middle, read, ended⟩ := single
            obtain ⟨same, rfl⟩ := yields_pure.mp ended
            obtain rfl : item = item' := by simpa using same
            refine Or.inr ⟨item, back ++ rest, read, (ih _ first).mpr
              ⟨later, back, rest, ?_, all', concat, ?_, rfl⟩⟩
            · rw [List.length_cons] at less
              omega
            · rwa [List.append_assoc, List.singleton_append]

end Collect

end MineGPT.Lib.Reader
