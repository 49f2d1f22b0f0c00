import Mathlib.Algebra.GroupWithZero.Nat
import MineGPT.Lib.ByteString

/-!
# Flat memory

A block of memory is a byte for each address.  `load` copies a range of it out and
`store` copies bytes in.  Where all offsets are multiples of one size, the memory is an
array of units: storing some units in a row changes these and no other.
-/

set_option autoImplicit false

namespace MineGPT.Lib.Memory

open ByteString

def load (mem : Nat → UInt8) (offset size : Nat) : Bytes :=
  (List.range size).map fun b => mem (offset + b)

def store (mem : Nat → UInt8) (offset : Nat) (data : Bytes) (address : Nat) : UInt8 :=
  if address < offset then mem address else (data[address - offset]?).getD (mem address)

def unit (mem : Nat → UInt8) (size index : Nat) : Bytes := load mem (index * size) size

@[simp] theorem length_load (mem : Nat → UInt8) (offset size : Nat) :
    (load mem offset size).length = size := by simp [load]

@[simp] theorem length_unit (mem : Nat → UInt8) (size index : Nat) :
    (unit mem size index).length = size := length_load ..

theorem load_add (mem : Nat → UInt8) (offset a b : Nat) :
    load mem offset (a + b) = load mem offset a ++ load mem (offset + a) b := by
  unfold load
  rw [List.range_add, List.map_append, List.map_map]
  simp only [Function.comp_def, Nat.add_assoc]

theorem load_units (mem : Nat → UInt8) (size first : Nat) : ∀ n,
    load mem (first * size) (n * size) =
      (List.range' first n).flatMap fun index => unit mem size index := by
  intro n
  induction n with
  | zero => simp [load]
  | succ n ih =>
      rw [Nat.succ_mul, load_add, ih, List.range'_concat, List.flatMap_append,
        List.flatMap_singleton, Nat.one_mul, unit, Nat.add_mul]

theorem load_store_outside {mem : Nat → UInt8} {offset from' size : Nat} {data : Bytes}
    (outside : from' + size ≤ offset ∨ offset + data.length ≤ from') :
    load (store mem offset data) from' size = load mem from' size := by
  apply List.map_congr_left
  intro b member
  have less := List.mem_range.mp member
  unfold store
  split_ifs with early
  · rfl
  · rw [List.getElem?_eq_none (by omega), Option.getD_none]

theorem load_store_inside (mem : Nat → UInt8) (offset : Nat) (before data after : Bytes) :
    load (store mem offset (before ++ data ++ after)) (offset + before.length) data.length =
      data := by
  apply List.ext_getElem
  · simp
  · intro b _ less
    have there : (before ++ data ++ after)[before.length + b]? = some data[b] := by
      rw [List.append_assoc, List.getElem?_append_right (by omega), Nat.add_sub_cancel_left,
        List.getElem?_append_left less, List.getElem?_eq_getElem less]
    simp only [load, List.getElem_map, List.getElem_range, store]
    rw [if_neg (by omega), show offset + before.length + b - offset = before.length + b by omega,
      there, Option.getD_some]

section Units

variable {mem : Nat → UInt8} {size first n : Nat} {piece : Nat → Bytes}

theorem length_pieces (sized : ∀ k < n, (piece k).length = size) :
    ((List.range n).flatMap piece).length = n * size := by
  induction n with
  | zero => simp
  | succ n ih =>
      rw [List.range_succ, List.flatMap_append, List.length_append,
        ih fun k less => sized k (by omega), List.flatMap_singleton, sized n (by omega),
        Nat.succ_mul]

theorem unit_store (sized : ∀ k < n, (piece k).length = size) (index : Nat) :
    unit (store mem (first * size) ((List.range n).flatMap piece)) size index =
      if first ≤ index ∧ index < first + n then piece (index - first) else unit mem size index := by
  split_ifs with inside
  · obtain ⟨k, rfl⟩ := Nat.exists_eq_add_of_le inside.1
    obtain ⟨rest, rfl⟩ : ∃ m, n = k + (1 + m) := ⟨n - k - 1, by omega⟩
    have before := length_pieces fun i (less : i < k) => sized i (by omega)
    have here := sized k (by omega)
    have split : (List.range (k + (1 + rest))).flatMap piece =
        (List.range k).flatMap piece ++ piece k ++
          ((List.range rest).map fun i => k + (1 + i)).flatMap piece := by
      rw [List.range_add, List.range_add, List.map_append, List.flatMap_append,
        List.flatMap_append, List.append_assoc]
      simp [Function.comp_def]
    have stored := load_store_inside mem (first * size) ((List.range k).flatMap piece) (piece k)
      (((List.range rest).map fun i => k + (1 + i)).flatMap piece)
    rw [before, here, ← split, ← Nat.add_mul] at stored
    rw [unit, stored, Nat.add_sub_cancel_left]
  · rw [unit, load_store_outside]
    · rfl
    · rw [length_pieces sized, ← Nat.add_mul]
      rcases Nat.lt_or_ge index first with early | late
      · refine Or.inl ?_
        rw [← Nat.succ_mul]
        exact Nat.mul_le_mul_right size early
      · exact Or.inr (Nat.mul_le_mul_right size (by omega))

end Units

end MineGPT.Lib.Memory
