import Mathlib.Algebra.GroupWithZero.Nat
import Mathlib.Data.List.Basic
import Mathlib.Data.List.Nodup

/-!
# A text cut into a chain of segments

Segments stand in a list and are linked both ways by their indices, -1 where
there is no neighbour.  Merging a segment into the one before it leaves an empty
segment behind, which is no longer linked.  `Tiles` says which segments are, and
that they cover the text.
-/

set_option autoImplicit false

namespace MineGPT.Lib.Chain

variable {β : Type}

structure Segment where
  prev : Int
  next : Int
  start : Nat
  n : Nat
  deriving DecidableEq, Repr, Inhabited

def Segment.content (text : List β) (segment : Segment) : List β :=
  (text.drop segment.start).take segment.n

def segmentAt (segments : List Segment) (i : Nat) : Segment := segments.getD i default

def merge (segments : List Segment) (l r : Nat) : List Segment :=
  let right := segmentAt segments r
  let segments := segments.modify l fun left => { left with n := left.n + right.n }
  let segments := segments.modify r fun right => { right with n := 0 }
  let segments := segments.modify l fun left => { left with next := right.next }
  if 0 ≤ right.next then
    segments.modify right.next.toNat fun behind => { behind with prev := l }
  else segments

def walk (segments : List Segment) : Nat → Int → List Segment
  | 0, _ => []
  | fuel + 1, i =>
    if i = -1 then []
    else
      let here := segmentAt segments i.toNat
      here :: walk segments fuel here.next

def ofLengths : Nat → Nat → List Nat → List Segment
  | _, _, [] => []
  | index, start, n :: rest =>
    { prev := (index : Int) - 1
      next := if rest = [] then -1 else (index : Int) + 1
      start := start
      n := n } :: ofLengths (index + 1) (start + n) rest

/-! ## The linked segments -/

def nextOf : List Nat → Int
  | [] => -1
  | i :: _ => i

/-- The segments with these indices follow each other from `start` to the end. -/
def Linked (here : Nat → Segment) (length : Nat) : Int → Nat → List Nat → Prop
  | _, start, [] => start = length
  | prev, start, i :: rest =>
    (here i).prev = prev ∧ (here i).next = nextOf rest ∧ (here i).start = start ∧ 0 < (here i).n ∧
      Linked here length i (start + (here i).n) rest

structure Tiles (here : Nat → Segment) (length : Nat) (live : List Nat) : Prop where
  linked : Linked here length (-1) 0 live
  sorted : live.Pairwise (· < ·)
  dead : ∀ i, i ∉ live → (here i).n = 0
  first : ∀ i rest, live = i :: rest → i = 0

/-- Neighbours in the text. -/
structure Adjacent (length : Nat) (left right : Segment) : Prop where
  meets : left.start + left.n = right.start
  inside : right.start + right.n ≤ length

section Linked

variable {here there : Nat → Segment} {length : Nat}

theorem Linked.congr : ∀ {live : List Nat} {prev : Int} {start : Nat},
    Linked here length prev start live → (∀ i ∈ live, there i = here i) →
    Linked there length prev start live := by
  intro live
  induction live with
  | nil => intro prev start linked _; exact linked
  | cons i rest ih =>
      intro prev start linked same
      obtain ⟨before, behind, begins, nonempty, later⟩ := linked
      have first := same i (by simp)
      refine ⟨by rw [first, before], by rw [first, behind], by rw [first, begins],
        by rwa [first], ?_⟩
      rw [first]
      exact ih later fun j member => same j (by simp [member])

theorem Linked.pos : ∀ {live : List Nat} {prev : Int} {start : Nat},
    Linked here length prev start live → ∀ i ∈ live, 0 < (here i).n := by
  intro live
  induction live with
  | nil => intro prev start _ i member; cases member
  | cons j rest ih =>
      intro prev start linked i member
      obtain ⟨_, _, _, nonempty, later⟩ := linked
      rcases List.mem_cons.mp member with rfl | member
      · exact nonempty
      · exact ih later i member

theorem Linked.start_le : ∀ {live : List Nat} {prev : Int} {start : Nat},
    Linked here length prev start live → start ≤ length := by
  intro live
  induction live with
  | nil => intro prev start linked; exact Nat.le_of_eq linked
  | cons i rest ih =>
      intro prev start linked
      have later := ih linked.2.2.2.2
      omega

def lastOf : Int → List Nat → Int
  | prev, [] => prev
  | _, i :: pre => lastOf i pre

theorem lastOf_append : ∀ (pre rest : List Nat) (prev : Int),
    lastOf prev (pre ++ rest) = lastOf (lastOf prev pre) rest := by
  intro pre
  induction pre with
  | nil => intro rest prev; rfl
  | cons i pre ih => intro rest prev; exact ih rest i

theorem Linked.behind : ∀ {pre rest : List Nat} {prev : Int} {start : Nat},
    Linked here length prev start (pre ++ rest) →
    ∃ middle, Linked here length (lastOf prev pre) middle rest := by
  intro pre
  induction pre with
  | nil => intro rest prev start linked; exact ⟨start, linked⟩
  | cons i pre ih =>
      intro rest prev start linked
      exact ih linked.2.2.2.2

theorem Linked.adjacent {pre post : List Nat} {a b : Nat} {prev : Int} {start : Nat}
    (linked : Linked here length prev start (pre ++ a :: b :: post)) :
    (here a).next = b ∧ (here b).prev = a ∧ Adjacent length (here a) (here b) := by
  obtain ⟨middle, linked⟩ := linked.behind
  obtain ⟨_, behind, begins, _, before, _, meets, _, later⟩ := linked
  refine ⟨behind, before, ?_, ?_⟩
  · rw [begins, meets]
  · rw [meets]
    exact later.start_le

theorem Linked.flatten {text : List β} : ∀ {live : List Nat} {prev : Int} {start : Nat},
    Linked here text.length prev start live →
    (live.map fun i => (here i).content text).flatten = text.drop start := by
  intro live
  induction live with
  | nil =>
      intro prev start linked
      have atEnd : start = text.length := linked
      rw [atEnd, List.drop_length]
      rfl
  | cons i rest ih =>
      intro prev start linked
      obtain ⟨_, _, begins, _, later⟩ := linked
      rw [List.map_cons, List.flatten_cons, ih later, Segment.content, begins, ← List.drop_drop]
      exact List.take_append_drop _ _

end Linked

/-! ## Merging -/

section Merge

variable {segments : List Segment} {length l r : Nat} {pre post : List Nat}

theorem segmentAt_modify (segments : List Segment) (i j : Nat) (change : Segment → Segment) :
    segmentAt (segments.modify i change) j =
      if i = j ∧ j < segments.length then change (segmentAt segments j)
      else segmentAt segments j := by
  simp only [segmentAt, List.getD_eq_getElem?_getD, List.getElem?_modify]
  by_cases same : i = j
  · subst same
    by_cases inside : i < segments.length
    · simp [inside]
    · simp [inside]
  · simp [same]

theorem lt_length_of_pos {i : Nat} (nonempty : 0 < (segmentAt segments i).n) :
    i < segments.length := by
  by_contra outside
  have absent : segmentAt segments i = default := by
    rw [segmentAt, List.getD_eq_getElem?_getD,
      List.getElem?_eq_none (Nat.le_of_not_lt outside)]
    rfl
  rw [absent] at nonempty
  exact Nat.lt_irrefl 0 nonempty

def afterMerge (here : Nat → Segment) (l r : Nat) (post : List Nat) (i : Nat) : Segment :=
  if i = l then { here l with n := (here l).n + (here r).n, next := (here r).next }
  else if i = r then { here r with n := 0 }
  else if post.head? = some i then { here i with prev := l }
  else here i

theorem segmentAt_merge (linked : Linked (segmentAt segments) length (-1) 0 (pre ++ l :: r :: post))
    (distinct : (pre ++ l :: r :: post).Nodup) (i : Nat) :
    segmentAt (merge segments l r) i = afterMerge (segmentAt segments) l r post i := by
  obtain ⟨_, part⟩ := linked.behind
  obtain ⟨_, _, _, leftPos, _, behind, _, rightPos, rest⟩ := part
  have inLeft := lt_length_of_pos leftPos
  have inRight := lt_length_of_pos rightPos
  have apart := (List.nodup_append.mp distinct).2.1
  simp only [List.nodup_cons, List.mem_cons, not_or] at apart
  obtain ⟨⟨differ, leftOut⟩, rightOut, _⟩ := apart
  unfold merge afterMerge
  simp only [behind]
  cases post with
  | nil =>
      simp only [nextOf, show ¬ (0 : Int) ≤ -1 by decide, if_false]
      by_cases left : i = l
      · subst left
        simp [segmentAt_modify, inLeft, Ne.symm differ]
      · by_cases right : i = r
        · subst right
          simp [segmentAt_modify, inRight, differ, left]
          exact behind
        · simp [segmentAt_modify, Ne.symm left, Ne.symm right, left, right]
  | cons b post =>
      have inBehind := lt_length_of_pos rest.2.2.2.1
      simp only [List.mem_cons, not_or] at leftOut rightOut
      simp only [nextOf, Int.natCast_nonneg, if_true, Int.toNat_natCast, List.head?_cons,
        Option.some.injEq]
      by_cases left : i = l
      · subst left
        simp [segmentAt_modify, inLeft, Ne.symm differ, Ne.symm leftOut.1]
      · by_cases right : i = r
        · subst right
          simp [segmentAt_modify, inRight, differ, left, Ne.symm rightOut.1]
          exact behind
        · by_cases first : b = i
          · subst first
            simp [segmentAt_modify, inBehind, Ne.symm left, Ne.symm right, left, right]
          · simp [segmentAt_modify, Ne.symm left, Ne.symm right, left, right, first]

theorem Linked.relink {here there : Nat → Segment} {prev prev' : Int} {start : Nat}
    (linked : Linked here length prev start post)
    (first : ∀ b, post.head? = some b → there b = { here b with prev := prev' })
    (later : ∀ b ∈ post.tail, there b = here b) : Linked there length prev' start post := by
  cases post with
  | nil => exact linked
  | cons b rest =>
      obtain ⟨_, behind, begins, nonempty, tail⟩ := linked
      have changed := first b rfl
      refine ⟨by rw [changed], by rw [changed]; exact behind, by rw [changed]; exact begins,
        by rw [changed]; exact nonempty, ?_⟩
      rw [changed]
      exact tail.congr later

theorem nextOf_append (pre rest rest' : List Nat) (l : Nat) :
    nextOf (pre ++ l :: rest) = nextOf (pre ++ l :: rest') := by
  cases pre <;> rfl

theorem Linked.merge {here : Nat → Segment} : ∀ {pre : List Nat} {prev : Int} {start : Nat},
    Linked here length prev start (pre ++ l :: r :: post) → (pre ++ l :: r :: post).Nodup →
    Linked (afterMerge here l r post) length prev start (pre ++ l :: post) := by
  intro pre
  induction pre with
  | nil =>
      intro prev start linked distinct
      obtain ⟨before, _, begins, leftPos, _, behind, _, rightPos, rest⟩ := linked
      simp only [List.nil_append, List.nodup_cons, List.mem_cons, not_or] at distinct
      obtain ⟨⟨differ, leftOut⟩, rightOut, unique⟩ := distinct
      refine ⟨by simp [afterMerge, before], by simp [afterMerge, behind],
        by simp [afterMerge, begins], by simp [afterMerge]; omega, ?_⟩
      have place : start + (afterMerge here l r post l).n = start + (here l).n + (here r).n := by
        simp [afterMerge, Nat.add_assoc]
      rw [place]
      have apart : ∀ b ∈ post, b ≠ l ∧ b ≠ r := fun b member =>
        ⟨fun same => leftOut (same ▸ member), fun same => rightOut (same ▸ member)⟩
      refine rest.relink (fun b first => ?_) fun b member => ?_
      · have member := apart b (List.mem_of_head? first)
        simp [afterMerge, member.1, member.2, first]
      · have away := apart b (List.mem_of_mem_tail member)
        have notFirst : post.head? ≠ some b := by
          cases post with
          | nil => simp
          | cons c post =>
              intro same
              cases same
              exact (List.nodup_cons.mp unique).1 member
        simp [afterMerge, away.1, away.2, notFirst]
  | cons i pre ih =>
      intro prev start linked distinct
      obtain ⟨before, behind, begins, nonempty, rest⟩ := linked
      rw [List.cons_append] at distinct
      obtain ⟨away, distinct⟩ := List.nodup_cons.mp distinct
      simp only [List.mem_append, List.mem_cons, not_or] at away
      obtain ⟨_, notLeft, notRight, notPost⟩ := away
      have notFirst : post.head? ≠ some i := fun same => notPost (List.mem_of_head? same)
      have same : afterMerge here l r post i = here i := by
        simp [afterMerge, notLeft, notRight, notFirst]
      refine ⟨by rw [same]; exact before, ?_, by rw [same]; exact begins,
        by rw [same]; exact nonempty, ?_⟩
      · rw [same, behind]
        exact nextOf_append pre _ _ l
      · rw [same]
        exact ih rest distinct

theorem Tiles.merge {here : Nat → Segment} (tiles : Tiles here length (pre ++ l :: r :: post)) :
    Tiles (afterMerge here l r post) length (pre ++ l :: post) := by
  have distinct : (pre ++ l :: r :: post).Nodup := tiles.sorted.imp Nat.ne_of_lt
  refine ⟨tiles.linked.merge distinct, ?_, ?_, ?_⟩
  · refine List.Pairwise.sublist ?_ tiles.sorted
    exact (List.Sublist.refl pre).append ((List.sublist_cons_self r post).cons_cons l)
  · intro i absent
    simp only [List.mem_append, List.mem_cons, not_or] at absent
    obtain ⟨notPre, notLeft, notPost⟩ := absent
    have notFirst : post.head? ≠ some i := fun same => notPost (List.mem_of_head? same)
    by_cases right : i = r
    · simp [afterMerge, ← right, notLeft]
    · have dead : (here i).n = 0 := tiles.dead i (by simp [notPre, notLeft, notPost, right])
      simp [afterMerge, notLeft, right, notFirst, dead]
  · intro i rest split
    cases pre with
    | nil => exact tiles.first i (r :: post) (by simp_all)
    | cons j pre => exact tiles.first i (pre ++ l :: r :: post) (by simp_all)

theorem content_afterMerge {text : List β} {here : Nat → Segment} (post : List Nat)
    (adjacent : Adjacent text.length (here l) (here r)) :
    (afterMerge here l r post l).content text =
      (here l).content text ++ (here r).content text := by
  simp only [afterMerge, if_true, Segment.content]
  rw [List.take_add, List.drop_drop, adjacent.meets]

end Merge

/-! ## Reading the chain and cutting it -/

theorem walk_linked {segments : List Segment} {length : Nat} : ∀ {live : List Nat} {prev : Int}
    {start fuel : Nat}, Linked (segmentAt segments) length prev start live → live.length ≤ fuel →
    walk segments fuel (nextOf live) = live.map (segmentAt segments) := by
  intro live
  induction live with
  | nil =>
      intro prev start fuel _ _
      cases fuel with
      | zero => rfl
      | succ fuel => rfl
  | cons i rest ih =>
      intro prev start fuel linked enough
      obtain ⟨_, behind, _, _, later⟩ := linked
      cases fuel with
      | zero => simp at enough
      | succ fuel =>
          have present : (i : Int) ≠ -1 := by omega
          have onward := ih later (Nat.le_of_succ_le_succ enough)
          rw [nextOf, walk, if_neg present, Int.toNat_natCast, List.map_cons, ← onward, ← behind]

theorem length_ofLengths : ∀ (lengths : List Nat) (index start : Nat),
    (ofLengths index start lengths).length = lengths.length := by
  intro lengths
  induction lengths with
  | nil => intro index start; rfl
  | cons n rest ih => intro index start; simp [ofLengths, ih]

theorem nextOf_range' (index : Nat) (lengths : List Nat) :
    nextOf (List.range' index lengths.length) = if lengths = [] then -1 else (index : Int) := by
  cases lengths <;> rfl

theorem linked_ofLengths : ∀ (lengths : List Nat) (before : List Segment) (start length : Nat),
    (∀ n ∈ lengths, 0 < n) → start + lengths.sum = length →
    Linked (segmentAt (before ++ ofLengths before.length start lengths)) length
      ((before.length : Int) - 1) start (List.range' before.length lengths.length) := by
  intro lengths
  induction lengths with
  | nil => intro before start length _ total; simpa [Linked] using total
  | cons n rest ih =>
      intro before start length positive total
      have here : segmentAt (before ++ ofLengths before.length start (n :: rest)) before.length =
          { prev := (before.length : Int) - 1
            next := if rest = [] then -1 else (before.length : Int) + 1
            start := start
            n := n } := by
        simp [segmentAt, ofLengths]
      simp only [List.length_cons, List.range'_succ, Linked]
      rw [here]
      refine ⟨rfl, ?_, rfl, positive n (by simp), ?_⟩
      · rw [nextOf_range']
        split <;> simp
      · have later := ih (before ++ (ofLengths before.length start (n :: rest)).take 1)
          (start + n) length (fun m member => positive m (by simp [member]))
          (by simp only [List.sum_cons] at total; omega)
        simp [ofLengths] at later ⊢
        exact later

theorem tiles_ofLengths {lengths : List Nat} (positive : ∀ n ∈ lengths, 0 < n) :
    Tiles (segmentAt (ofLengths 0 0 lengths)) lengths.sum (List.range lengths.length) := by
  have linked := linked_ofLengths lengths [] 0 lengths.sum positive (Nat.zero_add _)
  refine ⟨?_, List.pairwise_lt_range, ?_, ?_⟩
  · simpa [List.range_eq_range'] using linked
  · intro i outside
    have beyond : (ofLengths 0 0 lengths).length ≤ i := by
      rw [length_ofLengths]
      simpa using outside
    rw [segmentAt, List.getD_eq_getElem?_getD, List.getElem?_eq_none beyond]
    rfl
  · intro i rest split
    cases lengths with
    | nil => cases split
    | cons n lengths =>
        rw [List.length_cons, List.range_succ_eq_map] at split
        exact (List.cons.inj split).1.symm

theorem map_segmentAt_range (segments : List Segment) :
    (List.range segments.length).map (segmentAt segments) = segments := by
  apply List.ext_getElem
  · simp
  · intro i _ inside
    simp [segmentAt, inside]

section Live

variable {segments : List Segment} {length : Nat} {live : List Nat}

theorem Tiles.mem_iff (tiles : Tiles (segmentAt segments) length live) (i : Nat) :
    i ∈ live ↔ 0 < (segmentAt segments i).n := by
  constructor
  · exact tiles.linked.pos i
  · intro nonempty
    by_contra absent
    have dead := tiles.dead i absent
    omega

theorem Tiles.filter_range (tiles : Tiles (segmentAt segments) length live) :
    (List.range segments.length).filter (fun i => 0 < (segmentAt segments i).n) = live := by
  have sorted : ((List.range segments.length).filter
      fun i => 0 < (segmentAt segments i).n).Pairwise (· < ·) :=
    List.pairwise_lt_range.filter _
  have same : ((List.range segments.length).filter
      fun i => 0 < (segmentAt segments i).n).Perm live := by
    rw [List.perm_ext_iff_of_nodup (sorted.imp Nat.ne_of_lt) (tiles.sorted.imp Nat.ne_of_lt)]
    intro i
    rw [tiles.mem_iff, List.mem_filter, List.mem_range, decide_eq_true_eq]
    exact ⟨And.right, fun nonempty => ⟨lt_length_of_pos nonempty, nonempty⟩⟩
  exact same.eq_of_pairwise (fun a b _ _ less more => absurd less (Nat.lt_asymm more)) sorted
    tiles.sorted

theorem Tiles.length_le (tiles : Tiles (segmentAt segments) length live) :
    live.length ≤ segments.length := by
  have shorter := List.length_filter_le (fun i => decide (0 < (segmentAt segments i).n))
    (List.range segments.length)
  rwa [tiles.filter_range, List.length_range] at shorter

theorem Tiles.filter_pos (tiles : Tiles (segmentAt segments) length live) :
    segments.filter (fun segment => 0 < segment.n) = live.map (segmentAt segments) := by
  conv_lhs => rw [← map_segmentAt_range segments, List.filter_map]
  rw [← tiles.filter_range]
  rfl

end Live

theorem content_ofLengths : ∀ (pieces : List (List β)) (before : List β) (index : Nat),
    (ofLengths index before.length (pieces.map List.length)).map
      (Segment.content (before ++ pieces.flatten)) = pieces := by
  intro pieces
  induction pieces with
  | nil => intro before index; rfl
  | cons piece rest ih =>
      intro before index
      have later := ih (before ++ piece) (index + 1)
      rw [List.length_append, List.append_assoc] at later
      simp only [List.map_cons, ofLengths, List.flatten_cons, later, Segment.content]
      rw [List.drop_left, List.take_left]

end MineGPT.Lib.Chain
