import Mathlib.Data.List.Basic
import Mathlib.Data.List.Infix

/-!
# Finding and replacing

`findFrom` is `std::string::find` with a start position, `replaceAll` the loop
that copies what is between two finds.  `substitute` is the same replacement by
recursion on the text.
-/

set_option autoImplicit false

namespace MineGPT.Lib.TextSearch

variable {β : Type} [DecidableEq β]

/-- The first position from `pos` on at which the pattern stands. -/
def findFrom (text pattern : List β) (pos : Nat) : Option Nat :=
  (List.range' pos (text.length + 1 - pos)).find? fun i => pattern.isPrefixOf (text.drop i)

def replaceLoop (text search replace : List β) : Nat → Nat → List β
  | 0, last => text.drop last
  | fuel + 1, last =>
    match findFrom text search last with
    | none => text.drop last
    | some pos =>
      (text.drop last).take (pos - last) ++
        (replace ++ replaceLoop text search replace fuel (pos + search.length))

def replaceAll (text search replace : List β) : List β :=
  if search = [] then text else replaceLoop text search replace text.length 0

/-- The first number is how much of the last match is still to be passed over. -/
def substitute (search replace : List β) : Nat → List β → List β
  | _, [] => []
  | skip + 1, _ :: rest => substitute search replace skip rest
  | 0, b :: rest =>
    if search <+: b :: rest then replace ++ substitute search replace (search.length - 1) rest
    else b :: substitute search replace 0 rest

section Find

variable {text pattern : List β} {pos m : Nat}

theorem findFrom_some (found : findFrom text pattern pos = some m) :
    pos ≤ m ∧ pattern <+: text.drop m ∧
      ∀ i, pos ≤ i → i < m → ¬ pattern <+: text.drop i := by
  obtain ⟨here, before, after, split, earlier⟩ := List.find?_eq_some_iff_append.mp found
  have range := congrArg (fun l => l[before.length]?) split
  simp only [List.getElem?_append_right (Nat.le_refl _), Nat.sub_self, List.getElem?_cons_zero]
    at range
  obtain ⟨inside, place⟩ := List.getElem?_eq_some_iff.mp range
  simp only [List.getElem_range', Nat.one_mul] at place
  refine ⟨by omega, List.isPrefixOf_iff_prefix.mp here, ?_⟩
  intro i low high stands
  have member : i ∈ before := by
    have at_i : (List.range' pos (text.length + 1 - pos))[i - pos]? = some i := by
      rw [List.length_range'] at inside
      rw [List.getElem?_range' (by omega)]
      congr 1
      omega
    rw [split, List.getElem?_append_left (by omega)] at at_i
    exact List.mem_of_getElem? at_i
  have absent := earlier i member
  rw [List.isPrefixOf_iff_prefix.mpr stands] at absent
  cases absent

theorem findFrom_none (absent : findFrom text pattern pos = none) {i : Nat} (after : pos ≤ i)
    (inside : i ≤ text.length) : ¬ pattern <+: text.drop i := by
  intro stands
  have missed := List.find?_eq_none.mp absent i (List.mem_range'_1.mpr (by omega))
  exact missed (List.isPrefixOf_iff_prefix.mpr stands)

theorem findFrom_end (found : findFrom text pattern pos = some m) (nonempty : pattern ≠ []) :
    m + pattern.length ≤ text.length := by
  have stands := (findFrom_some found).2.1.length_le
  have positive := List.length_pos_iff.mpr nonempty
  rw [List.length_drop] at stands
  omega

end Find

section Replace

variable {search replace : List β}

theorem substitute_skip : ∀ (text : List β) (skip : Nat),
    substitute search replace skip text = substitute search replace 0 (text.drop skip) := by
  intro text
  induction text with
  | nil => intro skip; cases skip <;> rfl
  | cons b rest ih =>
      intro skip
      cases skip with
      | zero => rfl
      | succ skip => exact ih skip

theorem substitute_match (nonempty : search ≠ []) (rest : List β) :
    substitute search replace 0 (search ++ rest) =
      replace ++ substitute search replace 0 rest := by
  cases search with
  | nil => exact absurd rfl nonempty
  | cons b search =>
      have here : b :: search <+: b :: (search ++ rest) := List.prefix_append (b :: search) rest
      rw [List.cons_append, substitute, if_pos here, substitute_skip, List.length_cons,
        Nat.add_sub_cancel, List.drop_left]

theorem substitute_miss {b : β} {rest : List β} (miss : ¬ search <+: b :: rest) :
    substitute search replace 0 (b :: rest) = b :: substitute search replace 0 rest := by
  rw [substitute, if_neg miss]

theorem substitute_until : ∀ (n : Nat) (text : List β), n ≤ text.length →
    (∀ i < n, ¬ search <+: text.drop i) →
    substitute search replace 0 text =
      text.take n ++ substitute search replace 0 (text.drop n) := by
  intro n
  induction n with
  | zero => intro text _ _; rfl
  | succ n ih =>
      intro text enough misses
      cases text with
      | nil => cases enough
      | cons b rest =>
          have later := ih rest (Nat.le_of_succ_le_succ enough) fun i small =>
            misses (i + 1) (by omega)
          rw [substitute_miss (misses 0 (by omega)), later]
          rfl

theorem replaceLoop_eq (nonempty : search ≠ []) (text : List β) : ∀ (fuel last : Nat),
    text.length - last ≤ fuel →
    replaceLoop text search replace fuel last =
      substitute search replace 0 (text.drop last) := by
  have positive := List.length_pos_iff.mpr nonempty
  have ended : ∀ rest : List β, (∀ i < rest.length, ¬ search <+: rest.drop i) →
      substitute search replace 0 rest = rest := by
    intro rest misses
    rw [substitute_until rest.length rest (Nat.le_refl _) misses, List.take_length, List.drop_length]
    exact List.append_nil rest
  intro fuel
  induction fuel with
  | zero =>
      intro last out
      rw [replaceLoop, List.drop_eq_nil_of_le (by omega)]
      rfl
  | succ fuel ih =>
      intro last enough
      rw [replaceLoop]
      cases found : findFrom text search last with
      | none =>
          refine (ended _ ?_).symm
          intro i small
          rw [List.length_drop] at small
          rw [List.drop_drop]
          exact findFrom_none found (Nat.le_add_right last i) (by omega)
      | some pos =>
          obtain ⟨ahead, stands, misses⟩ := findFrom_some found
          have bound := findFrom_end found nonempty
          have upTo := @substitute_until β _ search replace (pos - last) (text.drop last)
            (by rw [List.length_drop]; omega) (by
              intro i small
              rw [List.drop_drop]
              exact misses (last + i) (Nat.le_add_right last i) (by omega))
          have place : last + (pos - last) = pos := by omega
          obtain ⟨rest, split⟩ := stands
          have past : text.drop (pos + search.length) = rest := by
            rw [← List.drop_drop, ← split, List.drop_left]
          have later := ih (pos + search.length) (by omega)
          rw [past] at later
          rw [upTo, List.drop_drop, place, ← split, substitute_match nonempty]
          simp only [later]

theorem replaceAll_eq (nonempty : search ≠ []) (text : List β) :
    replaceAll text search replace = substitute search replace 0 text := by
  rw [replaceAll, if_neg nonempty, replaceLoop_eq nonempty text _ 0 (by omega)]
  rfl

end Replace

end MineGPT.Lib.TextSearch
