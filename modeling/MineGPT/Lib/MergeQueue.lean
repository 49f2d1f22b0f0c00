import MineGPT.Lib.PairMerge
import MineGPT.Lib.Chain

/-!
# Merging neighbours from a priority queue

The pieces are segments of the text in a linked chain, and the pairs that may be
merged wait in a priority queue.  A merge does not take away the pairs that its
segments were in: they are out of date, which is found when they are popped.
`mergeAll_greedy` says that what is left is what `PairMerge.Greedy` leaves,
whatever the queue does with pairs that compare equal.
-/

set_option autoImplicit false

namespace MineGPT.Lib.MergeQueue

open MineGPT.Lib.Chain MineGPT.Lib.PairMerge

variable {β ε σ S : Type}

structure Merger (ε : Type) where
  left : ε → Nat
  right : ε → Nat
  /-- The entry for the segments at two indices, if they may be merged. -/
  propose : Nat → Nat → Segment → Segment → Option ε
  fresh : ε → Segment → Segment → Bool
  less : ε → ε → Prop

/-- Which of two entries that compare equal is popped first is left open. -/
structure PriorityQueue (ε σ : Type) (less : ε → ε → Prop) where
  empty : σ
  push : ε → σ → σ
  pop : σ → Option (ε × σ)
  elems : σ → List ε
  elems_empty : elems empty = []
  elems_push : ∀ e queue, (elems (push e queue)).Perm (e :: elems queue)
  pop_none : ∀ queue, pop queue = none → elems queue = []
  pop_perm : ∀ queue e rest, pop queue = some (e, rest) → (elems queue).Perm (e :: elems rest)
  pop_top : ∀ queue e rest, pop queue = some (e, rest) → ∀ f ∈ elems rest, ¬ less e f

def popGreatest {κ : Type} [LinearOrder κ] (key : ε → κ) : List ε → Option (ε × List ε)
  | [] => none
  | e :: rest =>
    match popGreatest key rest with
    | none => some (e, [])
    | some (top, others) => if key top ≤ key e then some (e, rest) else some (top, e :: others)

section PopGreatest

variable {κ : Type} [LinearOrder κ] (key : ε → κ)

theorem popGreatest_none : ∀ {queue : List ε}, popGreatest key queue = none → queue = [] := by
  intro queue
  cases queue with
  | nil => intro _; rfl
  | cons e rest =>
      intro absent
      rw [popGreatest] at absent
      split at absent
      · cases absent
      · split_ifs at absent

theorem popGreatest_some : ∀ {queue : List ε} {e : ε} {rest : List ε},
    popGreatest key queue = some (e, rest) →
    queue.Perm (e :: rest) ∧ ∀ f ∈ rest, key f ≤ key e := by
  intro queue
  induction queue with
  | nil => intro e rest popped; cases popped
  | cons head tail ih =>
      intro e rest popped
      rw [popGreatest] at popped
      cases inner : popGreatest key tail with
      | none =>
          rw [inner] at popped
          cases popped
          rw [popGreatest_none key inner]
          exact ⟨List.Perm.refl _, by simp⟩
      | some found =>
          obtain ⟨top, others⟩ := found
          obtain ⟨perm, greatest⟩ := ih inner
          simp only [inner] at popped
          by_cases first : key top ≤ key head
          · rw [if_pos first] at popped
            cases popped
            refine ⟨List.Perm.refl _, fun f member => ?_⟩
            rcases List.mem_cons.mp (perm.mem_iff.mp member) with rfl | other
            · exact first
            · exact le_trans (greatest f other) first
          · rw [if_neg first] at popped
            cases popped
            refine ⟨(perm.cons head).trans (List.Perm.swap e head others), fun f member => ?_⟩
            rcases List.mem_cons.mp member with rfl | other
            · exact le_of_lt (lt_of_not_ge first)
            · exact greatest f other

/-- A queue that looks through all its entries. -/
def PriorityQueue.scan (less : ε → ε → Prop) (keyed : ∀ e f, less e f ↔ key e < key f) :
    PriorityQueue ε (List ε) less where
  empty := []
  push e queue := e :: queue
  pop := popGreatest key
  elems queue := queue
  elems_empty := rfl
  elems_push _ _ := List.Perm.refl _
  pop_none _ absent := popGreatest_none key absent
  pop_perm _ _ _ popped := (popGreatest_some key popped).1
  pop_top _ _ _ popped f member := by
    rw [keyed]
    exact not_lt.mpr ((popGreatest_some key popped).2 f member)

end PopGreatest

structure State (ε σ : Type) where
  segments : List Segment
  queue : σ
  /-- Every entry that was ever pushed, the last one first. -/
  pushed : List ε

section Run

variable (m : Merger ε) (q : PriorityQueue ε σ m.less)

def tryAdd (left right : Int) (s : State ε σ) : State ε σ :=
  if left = -1 ∨ right = -1 then s
  else
    match m.propose left.toNat right.toNat (segmentAt s.segments left.toNat)
        (segmentAt s.segments right.toNat) with
    | none => s
    | some e => { s with queue := q.push e s.queue, pushed := e :: s.pushed }

def seed (segments : List Segment) : State ε σ :=
  (List.range' 1 (segments.length - 1)).foldl (fun s (i : Nat) => tryAdd m q ((i : Int) - 1) i s)
    { segments := segments, queue := q.empty, pushed := [] }

/-- Merges the two segments of an entry and pushes the pairs on both sides. -/
def absorb (e : ε) (s : State ε σ) : State ε σ :=
  let s := { s with segments := merge s.segments (m.left e) (m.right e) }
  let s := tryAdd m q (segmentAt s.segments (m.left e)).prev (m.left e) s
  tryAdd m q (m.left e) (segmentAt s.segments (m.left e)).next s

/-- Takes one entry from the queue; `none` when there is none left. -/
def mergeStep (s : State ε σ) : Option (State ε σ) :=
  match q.pop s.queue with
  | none => none
  | some (e, queue) =>
    let s := { s with queue := queue }
    let left := segmentAt s.segments (m.left e)
    let right := segmentAt s.segments (m.right e)
    if left.n = 0 ∨ right.n = 0 ∨ m.fresh e left right = false then some s
    else some (absorb m q e s)

def mergeAll : Nat → State ε σ → Option (State ε σ)
  | 0, _ => none
  | fuel + 1, s =>
    match mergeStep m q s with
    | none => some s
    | some s => mergeAll fuel s

end Run

/-! ## What makes a merger work -/

/-- The entries stand for the pairs that `score` allows, at the score's place in the order. -/
structure Lawful [LinearOrder S] (m : Merger ε) (text : List β)
    (score : List β → List β → Option S) (priority : ε → S) : Prop where
  indices : ∀ {i j : Nat} {l r : Segment} {e : ε}, m.propose i j l r = some e →
    m.left e = i ∧ m.right e = j
  scored : ∀ {l r : Segment} (i j : Nat), Adjacent text.length l r →
    score (l.content text) (r.content text) = (m.propose i j l r).map priority
  congr : ∀ {l r l' r' : Segment} (i j : Nat), l'.start = l.start → l'.n = l.n →
    r'.start = r.start → r'.n = r.n → m.propose i j l' r' = m.propose i j l r
  fresh : ∀ {i j : Nat} {l r l' r' : Segment} {e : ε}, Adjacent text.length l r →
    m.propose i j l r = some e → Adjacent text.length l' r' → l'.start = l.start →
    r'.start = r.start → m.fresh e l' r' = decide (r'.n = r.n)
  less : ∀ e f, m.less e f ↔
    priority e < priority f ∨ priority e = priority f ∧ m.left f < m.left e

section Invariant

variable (m : Merger ε) (length : Nat) (here : Nat → Segment) (live : List Nat)

/-- The entry was pushed for segments that still begin where they did. -/
def Tracked (e : ε) : Prop :=
  (∃ l r, Adjacent length l r ∧ m.propose (m.left e) (m.right e) l r = some e ∧
    l.start = (here (m.left e)).start ∧ r.start = (here (m.right e)).start) ∧
  (m.left e ∈ live → m.right e ∈ live →
    ∃ pre post, live = pre ++ m.left e :: m.right e :: post)

def Complete (entries : List ε) : Prop :=
  ∀ pre a b post e, live = pre ++ a :: b :: post → m.propose a b (here a) (here b) = some e →
    e ∈ entries

end Invariant

structure Sound (m : Merger ε) (q : PriorityQueue ε σ m.less) (length : Nat) (live : List Nat)
    (s : State ε σ) : Prop where
  tiles : Tiles (segmentAt s.segments) length live
  tracked : ∀ e ∈ q.elems s.queue, Tracked m length (segmentAt s.segments) live e
  proposed : ∀ e ∈ s.pushed, ∃ i j l r, Adjacent length l r ∧ m.propose i j l r = some e

structure Inv (m : Merger ε) (q : PriorityQueue ε σ m.less) (length : Nat) (live : List Nat)
    (s : State ε σ) : Prop extends Sound m q length live s where
  complete : Complete m (segmentAt s.segments) live (q.elems s.queue)

def pieces (text : List β) (live : List Nat) (s : State ε σ) : List (List β) :=
  live.map fun i => (segmentAt s.segments i).content text

section TryAdd

variable {m : Merger ε} {q : PriorityQueue ε σ m.less} {left right : Int} {s : State ε σ}

theorem tryAdd_cases (left right : Int) (s : State ε σ) : tryAdd m q left right s = s ∧
      (left = -1 ∨ right = -1 ∨ m.propose left.toNat right.toNat
        (segmentAt s.segments left.toNat) (segmentAt s.segments right.toNat) = none) ∨
    left ≠ -1 ∧ right ≠ -1 ∧ ∃ e, m.propose left.toNat right.toNat
        (segmentAt s.segments left.toNat) (segmentAt s.segments right.toNat) = some e ∧
      tryAdd m q left right s = { s with queue := q.push e s.queue, pushed := e :: s.pushed } := by
  unfold tryAdd
  by_cases absent : left = -1 ∨ right = -1
  · rw [if_pos absent]
    exact Or.inl ⟨rfl, by tauto⟩
  · rw [if_neg absent]
    obtain ⟨hasLeft, hasRight⟩ := not_or.mp absent
    cases proposal : m.propose left.toNat right.toNat (segmentAt s.segments left.toNat)
        (segmentAt s.segments right.toNat) with
    | none => exact Or.inl ⟨rfl, Or.inr (Or.inr rfl)⟩
    | some e => exact Or.inr ⟨hasLeft, hasRight, e, rfl, rfl⟩

@[simp] theorem tryAdd_segments : (tryAdd m q left right s).segments = s.segments := by
  rcases tryAdd_cases (m := m) (q := q) left right s with
    ⟨same, _⟩ | ⟨_, _, e, _, same⟩
  · rw [same]
  · rw [same]

theorem mem_tryAdd (f : ε) : f ∈ q.elems (tryAdd m q left right s).queue ↔
    f ∈ q.elems s.queue ∨ left ≠ -1 ∧ right ≠ -1 ∧ m.propose left.toNat right.toNat
      (segmentAt s.segments left.toNat) (segmentAt s.segments right.toNat) = some f := by
  rcases tryAdd_cases (m := m) (q := q) left right s with
    ⟨same, why⟩ | ⟨hasLeft, hasRight, e, proposal, same⟩
  · rw [same]
    refine ⟨Or.inl, fun either => either.resolve_right ?_⟩
    intro ⟨hasLeft, hasRight, proposal⟩
    rcases why with absent | absent | absent
    · exact hasLeft absent
    · exact hasRight absent
    · rw [absent] at proposal
      cases proposal
  · rw [same, (q.elems_push e s.queue).mem_iff, List.mem_cons, proposal, Option.some.injEq]
    constructor
    · rintro (rfl | old)
      · exact Or.inr ⟨hasLeft, hasRight, rfl⟩
      · exact Or.inl old
    · rintro (old | ⟨_, _, rfl⟩)
      · exact Or.inr old
      · exact Or.inl rfl

theorem length_tryAdd (left right : Int) (s : State ε σ) : (q.elems (tryAdd m q left right s).queue).length ≤
    (q.elems s.queue).length + 1 := by
  rcases tryAdd_cases (m := m) (q := q) left right s with
    ⟨same, _⟩ | ⟨_, _, e, _, same⟩
  · rw [same]
    exact Nat.le_succ _
  · rw [same, (q.elems_push e s.queue).length_eq]
    exact Nat.le_refl _

def Neighbours (live : List Nat) (left right : Int) : Prop :=
  left = -1 ∨ right = -1 ∨ ∃ (pre : List Nat) (a b : Nat) (post : List Nat),
    live = pre ++ a :: b :: post ∧ left = a ∧ right = b

theorem tryAdd_sound [LinearOrder S] {text : List β} {score : List β → List β → Option S}
    {priority : ε → S} (lawful : Lawful m text score priority) {live : List Nat}
    (sound : Sound m q text.length live s) (neighbours : Neighbours live left right) :
    Sound m q text.length live (tryAdd m q left right s) := by
  rcases tryAdd_cases (m := m) (q := q) left right s with
    ⟨same, _⟩ | ⟨hasLeft, hasRight, e, proposal, same⟩
  · rw [same]
    exact sound
  · obtain ⟨pre, a, b, post, split, rfl, rfl⟩ :=
      (neighbours.resolve_left hasLeft).resolve_left hasRight
    simp only [Int.toNat_natCast] at proposal
    obtain ⟨_, _, adjacent⟩ := (split ▸ sound.tiles.linked).adjacent
    obtain ⟨atLeft, atRight⟩ := lawful.indices proposal
    rw [same]
    refine ⟨sound.tiles, ?_, ?_⟩
    · intro f member
      rw [(q.elems_push e s.queue).mem_iff] at member
      rcases List.mem_cons.mp member with rfl | old
      · rw [Tracked, atLeft, atRight]
        exact ⟨⟨_, _, adjacent, proposal, rfl, rfl⟩, fun _ _ => ⟨pre, post, split⟩⟩
      · exact sound.tracked f old
    · intro f member
      rcases List.mem_cons.mp member with rfl | old
      · exact ⟨a, b, _, _, adjacent, proposal⟩
      · exact sound.proposed f old

end TryAdd

/-! ## One merge -/

section Merge

variable {here : Nat → Segment} {l r : Nat} {pre post : List Nat}

@[simp] theorem afterMerge_start (i : Nat) : (afterMerge here l r post i).start = (here i).start := by
  unfold afterMerge
  split_ifs with left right first
  · rw [left]
  · rw [right]
  · rfl
  · rfl

theorem afterMerge_n {i : Nat} (notLeft : i ≠ l) (notRight : i ≠ r) :
    (afterMerge here l r post i).n = (here i).n := by
  unfold afterMerge
  rw [if_neg notLeft, if_neg notRight]
  split_ifs
  · rfl
  · rfl

theorem filter_merged (distinct : (pre ++ l :: r :: post).Nodup) :
    (pre ++ l :: r :: post).filter (· ≠ r) = pre ++ l :: post := by
  have apart := List.nodup_append.mp distinct
  obtain ⟨_, tail, across⟩ := apart
  simp only [List.nodup_cons, List.mem_cons, not_or] at tail
  have inPre : pre.filter (· ≠ r) = pre :=
    List.filter_eq_self.mpr fun i member => by simpa using across i member r (by simp)
  have inPost : post.filter (· ≠ r) = post :=
    List.filter_eq_self.mpr fun i member => by
      simpa using fun same : i = r => tail.2.1 (same ▸ member)
  rw [List.filter_append, inPre, List.filter_cons_of_pos (by simpa using tail.1.1),
    List.filter_cons_of_neg (by simp), inPost]

theorem neighbours_merged {a b : Nat} {pre' post' : List Nat}
    (distinct : (pre ++ l :: r :: post).Nodup)
    (split : pre ++ l :: r :: post = pre' ++ a :: b :: post') (notA : a ≠ r) (notB : b ≠ r) :
    pre ++ l :: post = pre'.filter (· ≠ r) ++ a :: b :: post'.filter (· ≠ r) := by
  rw [← filter_merged distinct, split, List.filter_append,
    List.filter_cons_of_pos (by simpa using notA), List.filter_cons_of_pos (by simpa using notB)]

theorem tracked_merge {m : Merger ε} {length : Nat} {e : ε}
    (distinct : (pre ++ l :: r :: post).Nodup)
    (tracked : Tracked m length here (pre ++ l :: r :: post) e) :
    Tracked m length (afterMerge here l r post) (pre ++ l :: post) e := by
  obtain ⟨⟨left, right, adjacent, proposal, beginsLeft, beginsRight⟩, together⟩ := tracked
  refine ⟨⟨left, right, adjacent, proposal, by simpa using beginsLeft, by simpa using beginsRight⟩,
    ?_⟩
  intro leftLive rightLive
  rw [← filter_merged distinct, List.mem_filter] at leftLive rightLive
  obtain ⟨pre', post', split⟩ := together leftLive.1 rightLive.1
  exact ⟨_, _, neighbours_merged distinct split (by simpa using leftLive.2)
    (by simpa using rightLive.2)⟩

theorem neighbours_before {a b : Nat} {pre' post' : List Nat} (distinct : (pre ++ l :: post).Nodup)
    (split : pre ++ l :: post = pre' ++ a :: b :: post') :
    a = l ∧ post = b :: post' ∨ b = l ∧ pre = pre' ++ [a] ∨
      a ≠ l ∧ b ≠ l ∧ ∃ pre'' post'', pre ++ l :: r :: post = pre'' ++ a :: b :: post'' := by
  obtain ⟨_, tail, across⟩ := List.nodup_append.mp distinct
  have notPost := (List.nodup_cons.mp tail).1
  rcases List.append_eq_append_iff.mp split with ⟨middle, ahead, behind⟩ | ⟨middle, ahead, behind⟩
  · cases middle with
    | nil =>
        simp only [List.nil_append, List.cons.injEq] at behind
        exact Or.inl ⟨behind.1.symm, behind.2⟩
    | cons c middle =>
        simp only [List.cons_append, List.cons.injEq] at behind
        obtain ⟨rfl, behind⟩ := behind
        refine Or.inr (Or.inr ⟨?_, ?_, pre ++ l :: r :: middle, post', by rw [behind]; simp⟩)
        · rintro rfl
          exact notPost (by simp [behind])
        · rintro rfl
          exact notPost (by simp [behind])
  · cases middle with
    | nil =>
        simp only [List.nil_append, List.cons.injEq] at behind
        exact Or.inl ⟨behind.1, behind.2.symm⟩
    | cons c middle =>
        simp only [List.cons_append, List.cons.injEq] at behind
        obtain ⟨rfl, behind⟩ := behind
        cases middle with
        | nil =>
            simp only [List.nil_append, List.cons.injEq] at behind
            exact Or.inr (Or.inl ⟨behind.1, ahead⟩)
        | cons d middle =>
            simp only [List.cons_append, List.cons.injEq] at behind
            obtain ⟨rfl, behind⟩ := behind
            refine Or.inr (Or.inr ⟨?_, ?_, pre', middle ++ l :: r :: post, by rw [ahead]; simp⟩)
            · exact across a (by simp [ahead]) l (by simp)
            · exact across b (by simp [ahead]) l (by simp)

end Merge

section Step

variable [LinearOrder S] {m : Merger ε} {q : PriorityQueue ε σ m.less} {text : List β}
  {score : List β → List β → Option S} {priority : ε → S} {live : List Nat} {s : State ε σ}

theorem Tracked.current (lawful : Lawful m text score priority)
    (tiles : Tiles (segmentAt s.segments) text.length live) {e : ε}
    (tracked : Tracked m text.length (segmentAt s.segments) live e)
    (leftPos : (segmentAt s.segments (m.left e)).n ≠ 0)
    (rightPos : (segmentAt s.segments (m.right e)).n ≠ 0)
    (fresh : m.fresh e (segmentAt s.segments (m.left e)) (segmentAt s.segments (m.right e)) = true) :
    (∃ pre post, live = pre ++ m.left e :: m.right e :: post) ∧
      m.propose (m.left e) (m.right e) (segmentAt s.segments (m.left e))
        (segmentAt s.segments (m.right e)) = some e := by
  obtain ⟨⟨l, r, adjacent, proposal, beginsLeft, beginsRight⟩, together⟩ := tracked
  have leftLive : m.left e ∈ live := by
    by_contra dead
    exact leftPos (tiles.dead _ dead)
  have rightLive : m.right e ∈ live := by
    by_contra dead
    exact rightPos (tiles.dead _ dead)
  obtain ⟨pre, post, split⟩ := together leftLive rightLive
  obtain ⟨_, _, now⟩ := (split ▸ tiles.linked).adjacent
  have sameRight := lawful.fresh adjacent proposal now beginsLeft.symm beginsRight.symm
  rw [fresh] at sameRight
  have rightN := of_decide_eq_true sameRight.symm
  have leftN : (segmentAt s.segments (m.left e)).n = l.n := by
    have before := adjacent.meets
    have after := now.meets
    omega
  refine ⟨⟨pre, post, split⟩, ?_⟩
  rw [lawful.congr _ _ beginsLeft.symm leftN beginsRight.symm rightN]
  exact proposal

/-- The entry of two neighbours is never found out of date. -/
theorem fresh_of_neighbours (lawful : Lawful m text score priority)
    (tiles : Tiles (segmentAt s.segments) text.length live) {e : ε} {pre post : List Nat}
    {a b : Nat} (split : live = pre ++ a :: b :: post)
    (proposal : m.propose a b (segmentAt s.segments a) (segmentAt s.segments b) = some e) :
    ¬ ((segmentAt s.segments (m.left e)).n = 0 ∨ (segmentAt s.segments (m.right e)).n = 0 ∨
      m.fresh e (segmentAt s.segments (m.left e)) (segmentAt s.segments (m.right e)) = false) := by
  obtain ⟨atLeft, atRight⟩ := lawful.indices proposal
  obtain ⟨_, _, adjacent⟩ := (split ▸ tiles.linked).adjacent
  have leftPos := tiles.linked.pos a (by simp [split])
  have rightPos := tiles.linked.pos b (by simp [split])
  have fresh := lawful.fresh adjacent proposal adjacent rfl rfl
  rw [atLeft, atRight, fresh, decide_eq_true rfl]
  simp only [Bool.true_eq_false, or_false]
  omega

theorem Inv.skip (lawful : Lawful m text score priority) (inv : Inv m q text.length live s)
    {e : ε} {queue : σ} (popped : q.pop s.queue = some (e, queue))
    (stale : (segmentAt s.segments (m.left e)).n = 0 ∨ (segmentAt s.segments (m.right e)).n = 0 ∨
      m.fresh e (segmentAt s.segments (m.left e)) (segmentAt s.segments (m.right e)) = false) :
    Inv m q text.length live { s with queue := queue } := by
  have members := q.pop_perm _ _ _ popped
  refine ⟨⟨inv.tiles, ?_, inv.proposed⟩, ?_⟩
  · intro f member
    exact inv.tracked f (members.mem_iff.mpr (List.mem_cons_of_mem e member))
  · intro pre a b post f split proposal
    have member := members.mem_iff.mp (inv.complete pre a b post f split proposal)
    rcases List.mem_cons.mp member with rfl | rest
    · exact absurd stale (fresh_of_neighbours lawful inv.tiles split proposal)
    · exact rest

theorem length_le_of_le {pre post pre' post' : List Nat} {a b : Nat}
    (sorted : live.Pairwise (· < ·)) (split : live = pre ++ a :: post)
    (split' : live = pre' ++ b :: post') (ahead : a ≤ b) : pre.length ≤ pre'.length := by
  by_contra behind
  have shorter : pre'.length < pre.length := Nat.lt_of_not_le behind
  have inside : pre.length < live.length := by simp [split]
  have earlier : pre'.length < live.length := by omega
  have ordered := List.pairwise_iff_getElem.mp sorted _ _ earlier inside shorter
  have atLeft : live[pre.length] = a := by simp [split]
  have atRight : live[pre'.length] = b := by simp [split']
  omega

theorem popped_best (lawful : Lawful m text score priority) (inv : Inv m q text.length live s)
    {e : ε} {queue : σ} (popped : q.pop s.queue = some (e, queue)) {pre post : List Nat}
    (split : live = pre ++ m.left e :: m.right e :: post) :
    ∀ pre' a' b' post' s', pieces text live s = pre' ++ a' :: b' :: post' →
      score a' b' = some s' → s' < priority e ∨ s' = priority e ∧ pre.length ≤ pre'.length := by
  intro pre' a' b' post' s' same scored
  obtain ⟨before, rest, liveSplit, rfl, behind⟩ := List.map_eq_append_iff.mp same
  obtain ⟨a, rest, rfl, rfl, next⟩ := List.map_eq_cons_iff.mp behind
  obtain ⟨b, after, rfl, rfl, rfl⟩ := List.map_eq_cons_iff.mp next
  obtain ⟨_, _, adjacent⟩ := (liveSplit ▸ inv.tiles.linked).adjacent
  rw [lawful.scored a b adjacent] at scored
  obtain ⟨f, proposal, rfl⟩ := Option.map_eq_some_iff.mp scored
  have member := inv.complete before a b after f liveSplit proposal
  have atLeft := (lawful.indices proposal).1
  have places : m.left e ≤ m.left f → pre.length ≤ before.length := by
    rw [atLeft]
    exact length_le_of_le inv.tiles.sorted split liveSplit
  rw [List.length_map]
  rcases List.mem_cons.mp ((q.pop_perm _ _ _ popped).mem_iff.mp member) with rfl | rest
  · exact Or.inr ⟨rfl, places (Nat.le_refl _)⟩
  · have notLess := mt (lawful.less e f).mpr (q.pop_top _ _ _ popped f rest)
    obtain ⟨notHigher, notTied⟩ := not_or.mp notLess
    rcases lt_or_eq_of_le (not_lt.mp notHigher) with lower | same
    · exact Or.inl lower
    · exact Or.inr ⟨same, places (Nat.le_of_not_lt fun ahead => notTied ⟨same.symm, ahead⟩)⟩

theorem Inv.complete_merge (lawful : Lawful m text score priority)
    (inv : Inv m q text.length live s) {e : ε} {queue : σ}
    (popped : q.pop s.queue = some (e, queue)) {pre post : List Nat}
    (split : live = pre ++ m.left e :: m.right e :: post) {s' : State ε σ}
    (moved : segmentAt s'.segments = afterMerge (segmentAt s.segments) (m.left e) (m.right e) post)
    (kept : ∀ f ∈ q.elems queue, f ∈ q.elems s'.queue)
    (before : ∀ a f, lastOf (-1) pre = Int.ofNat a → m.propose a (m.left e)
      (segmentAt s'.segments a) (segmentAt s'.segments (m.left e)) = some f →
      f ∈ q.elems s'.queue)
    (behind : ∀ b f, nextOf post = Int.ofNat b → m.propose (m.left e) b
      (segmentAt s'.segments (m.left e)) (segmentAt s'.segments b) = some f →
      f ∈ q.elems s'.queue) :
    Complete m (segmentAt s'.segments) (pre ++ m.left e :: post) (q.elems s'.queue) := by
  have distinct : (pre ++ m.left e :: m.right e :: post).Nodup :=
    split ▸ inv.tiles.sorted.imp Nat.ne_of_lt
  have merged : (pre ++ m.left e :: post).Nodup := by
    rw [← filter_merged distinct]
    exact distinct.filter _
  intro pre' a b post' f split' proposal
  rcases neighbours_before (r := m.right e) merged split' with
    ⟨rfl, rfl⟩ | ⟨rfl, rfl⟩ | ⟨notLeftA, notLeftB, pre'', post'', old⟩
  · exact behind b f rfl proposal
  · refine before a f ?_ proposal
    rw [lastOf_append]
    rfl
  · have notRight : ∀ i ∈ pre ++ m.left e :: post, i ≠ m.right e := by
      intro i member
      rw [← filter_merged distinct, List.mem_filter] at member
      simpa using member.2
    have notRightA := notRight a (by simp [split'])
    have notRightB := notRight b (by simp [split'])
    rw [moved] at proposal
    rw [lawful.congr a b (afterMerge_start a) (afterMerge_n notLeftA notRightA)
      (afterMerge_start b) (afterMerge_n notLeftB notRightB)] at proposal
    have member := inv.complete _ _ _ _ f (split.trans old) proposal
    rcases List.mem_cons.mp ((q.pop_perm _ _ _ popped).mem_iff.mp member) with rfl | rest
    · exact absurd (lawful.indices proposal).1.symm notLeftA
    · exact kept f rest

theorem Inv.tiles_merge (inv : Inv m q text.length live s) {l r : Nat} {pre post : List Nat}
    (split : live = pre ++ l :: r :: post) :
    segmentAt (merge s.segments l r) = afterMerge (segmentAt s.segments) l r post ∧
      Tiles (segmentAt (merge s.segments l r)) text.length (pre ++ l :: post) ∧
      (segmentAt (merge s.segments l r) l).prev = lastOf (-1) pre ∧
      (segmentAt (merge s.segments l r) l).next = nextOf post := by
  have distinct : (pre ++ l :: r :: post).Nodup := split ▸ inv.tiles.sorted.imp Nat.ne_of_lt
  have moved : segmentAt (merge s.segments l r) = afterMerge (segmentAt s.segments) l r post :=
    funext fun i => segmentAt_merge (split ▸ inv.tiles.linked) distinct i
  have tiles : Tiles (segmentAt (merge s.segments l r)) text.length (pre ++ l :: post) := by
    rw [moved]
    exact (split ▸ inv.tiles).merge
  obtain ⟨_, toLeft, toRight, _⟩ := tiles.linked.behind
  exact ⟨moved, tiles, toLeft, toRight⟩

theorem pieces_merge {l r : Nat} {pre post : List Nat} (s s' : State ε σ)
    (distinct : (pre ++ l :: r :: post).Nodup)
    (adjacent : Adjacent text.length (segmentAt s.segments l) (segmentAt s.segments r))
    (moved : segmentAt s'.segments = afterMerge (segmentAt s.segments) l r post) :
    pieces text (pre ++ l :: post) s' = pieces text pre s ++
      ((segmentAt s.segments l).content text ++ (segmentAt s.segments r).content text) ::
        pieces text post s := by
  have same : ∀ i, i ≠ l → i ≠ r →
      (segmentAt s'.segments i).content text = (segmentAt s.segments i).content text := by
    intro i notLeft notRight
    rw [moved, Segment.content, afterMerge_start, afterMerge_n notLeft notRight]
    rfl
  obtain ⟨_, tail, across⟩ := List.nodup_append.mp distinct
  obtain ⟨leftOut, tail⟩ := List.nodup_cons.mp tail
  have rightOut := (List.nodup_cons.mp tail).1
  simp only [pieces, List.map_append, List.map_cons]
  have grown := content_afterMerge post adjacent
  rw [← moved] at grown
  rw [grown]
  congr 1
  · apply List.map_congr_left
    intro i member
    exact same i (across i member l (by simp)) (across i member r (by simp))
  · congr 1
    apply List.map_congr_left
    intro i member
    exact same i (fun left => leftOut (by simp [← left, member]))
      fun right => rightOut (right ▸ member)

theorem Inv.absorb (lawful : Lawful m text score priority) (inv : Inv m q text.length live s)
    {e : ε} {queue : σ} (popped : q.pop s.queue = some (e, queue)) {pre post : List Nat}
    (split : live = pre ++ m.left e :: m.right e :: post)
    (proposal : m.propose (m.left e) (m.right e) (segmentAt s.segments (m.left e))
      (segmentAt s.segments (m.right e)) = some e) :
    Inv m q text.length (pre ++ m.left e :: post) (absorb m q e { s with queue := queue }) ∧
      Greedy score (pieces text live s)
        (pieces text (pre ++ m.left e :: post) (absorb m q e { s with queue := queue })) ∧
      (q.elems (absorb m q e { s with queue := queue }).queue).length ≤
        (q.elems s.queue).length + 1 := by
  have members := q.pop_perm _ _ _ popped
  have distinct : (pre ++ m.left e :: m.right e :: post).Nodup :=
    split ▸ inv.tiles.sorted.imp Nat.ne_of_lt
  obtain ⟨_, _, adjacent⟩ := (split ▸ inv.tiles.linked).adjacent
  obtain ⟨moved, tiles, toLeft, toRight⟩ := inv.tiles_merge split
  unfold MergeQueue.absorb
  simp only [tryAdd_segments, toLeft, toRight]
  have sound : Sound m q text.length (pre ++ m.left e :: post)
      { s with segments := merge s.segments (m.left e) (m.right e), queue := queue } := by
    refine ⟨tiles, ?_, inv.proposed⟩
    intro f member
    have before := inv.tracked f (members.mem_iff.mpr (List.mem_cons_of_mem e member))
    rw [split] at before
    simp only [moved]
    exact tracked_merge distinct before
  have leftSide : Neighbours (pre ++ m.left e :: post) (lastOf (-1) pre) (m.left e) := by
    rcases List.eq_nil_or_concat pre with rfl | ⟨pre, a, rfl⟩
    · exact Or.inl rfl
    · refine Or.inr (Or.inr ⟨pre, a, m.left e, post, by simp, ?_, rfl⟩)
      rw [List.concat_eq_append, lastOf_append]
      rfl
  have rightSide : Neighbours (pre ++ m.left e :: post) (m.left e) (nextOf post) := by
    cases post with
    | nil => exact Or.inr (Or.inl rfl)
    | cons b post => exact Or.inr (Or.inr ⟨pre, m.left e, b, post, rfl, rfl, rfl⟩)
  have soundLeft := tryAdd_sound lawful sound leftSide
  have soundBoth := tryAdd_sound lawful soundLeft rightSide
  refine ⟨⟨soundBoth, ?_⟩, ?_, ?_⟩
  · refine inv.complete_merge lawful popped split (by simpa using moved) ?_ ?_ ?_
    · intro f member
      rw [mem_tryAdd, mem_tryAdd]
      exact Or.inl (Or.inl member)
    · intro a f before wanted
      rw [mem_tryAdd, mem_tryAdd]
      refine Or.inl (Or.inr ⟨?_, by omega, ?_⟩)
      · rw [before]
        simp
      · simpa [before] using wanted
    · intro b f behind wanted
      rw [mem_tryAdd]
      refine Or.inr ⟨by omega, ?_, ?_⟩
      · rw [behind]
        simp
      · simpa [behind] using wanted
  · have spelled := pieces_merge s
      (tryAdd m q (m.left e) (nextOf post) (tryAdd m q (lastOf (-1) pre) (m.left e)
        { s with segments := merge s.segments (m.left e) (m.right e), queue := queue }))
      distinct adjacent (by simpa using moved)
    rw [spelled, split]
    have before : pieces text (pre ++ m.left e :: m.right e :: post) s = pieces text pre s ++
        (segmentAt s.segments (m.left e)).content text ::
          (segmentAt s.segments (m.right e)).content text :: pieces text post s := by
      simp [pieces]
    have best := popped_best lawful inv popped split
    rw [split, before] at best
    rw [before]
    refine Greedy.merge (s := priority e) ?_ ?_
    · rw [lawful.scored (m.left e) (m.right e) adjacent, proposal]
      rfl
    · simpa [pieces] using best
  · have first := length_tryAdd (m := m) (q := q) (lastOf (-1) pre) (m.left e)
      ({ s with segments := merge s.segments (m.left e) (m.right e), queue := queue })
    have second := length_tryAdd (m := m) (q := q) (m.left e) (nextOf post)
      (tryAdd m q (lastOf (-1) pre) (m.left e)
        { s with segments := merge s.segments (m.left e) (m.right e), queue := queue })
    have shorter := members.length_eq
    simp only [List.length_cons] at shorter first
    omega

/-! ## The whole run -/

/-- Every pop takes an entry away, and a merge that adds two takes a segment away. -/
def weight (q : PriorityQueue ε σ m.less) (live : List Nat) (s : State ε σ) : Nat :=
  (q.elems s.queue).length + 3 * live.length

theorem mergeStep_cases (lawful : Lawful m text score priority)
    (inv : Inv m q text.length live s) :
    mergeStep m q s = none ∧ q.elems s.queue = [] ∨
      ∃ s' live', mergeStep m q s = some s' ∧ Inv m q text.length live' s' ∧
        weight q live' s' < weight q live s ∧
        Relation.ReflTransGen (Greedy score) (pieces text live s) (pieces text live' s') := by
  unfold mergeStep
  cases popped : q.pop s.queue with
  | none => exact Or.inl ⟨rfl, q.pop_none _ popped⟩
  | some top =>
      obtain ⟨e, queue⟩ := top
      have members := q.pop_perm _ _ _ popped
      have shorter := members.length_eq
      rw [List.length_cons] at shorter
      refine Or.inr ?_
      by_cases stale : (segmentAt s.segments (m.left e)).n = 0 ∨
          (segmentAt s.segments (m.right e)).n = 0 ∨
          m.fresh e (segmentAt s.segments (m.left e)) (segmentAt s.segments (m.right e)) = false
      · refine ⟨{ s with queue := queue }, live, if_pos stale, inv.skip lawful popped stale, ?_,
          Relation.ReflTransGen.refl⟩
        simp only [weight]
        omega
      · refine ⟨absorb m q e { s with queue := queue }, ?_⟩
        obtain ⟨leftPos, rest⟩ := not_or.mp stale
        obtain ⟨rightPos, fresh⟩ := not_or.mp rest
        have tracked := inv.tracked e (members.mem_iff.mpr (by simp))
        obtain ⟨⟨pre, post, split⟩, proposal⟩ := tracked.current lawful inv.tiles leftPos rightPos
          (Bool.not_eq_false _ ▸ fresh)
        obtain ⟨later, greedy, bounded⟩ := inv.absorb lawful popped split proposal
        refine ⟨_, if_neg stale, later, ?_, Relation.ReflTransGen.single greedy⟩
        simp only [weight, split, List.length_append, List.length_cons]
        omega

theorem mergeAll_runs (lawful : Lawful m text score priority) : ∀ (fuel : Nat) (live : List Nat)
    (s : State ε σ), Inv m q text.length live s → weight q live s < fuel →
    ∃ final live', mergeAll m q fuel s = some final ∧ Inv m q text.length live' final ∧
      q.elems final.queue = [] ∧
      Relation.ReflTransGen (Greedy score) (pieces text live s) (pieces text live' final) := by
  intro fuel
  induction fuel with
  | zero => intro live s _ enough; omega
  | succ fuel ih =>
      intro live s inv enough
      rw [mergeAll]
      rcases mergeStep_cases lawful inv with ⟨stop, empty⟩ | ⟨s', live', step, inv', less, greedy⟩
      · rw [stop]
        exact ⟨s, live, rfl, inv, empty, Relation.ReflTransGen.refl⟩
      · rw [step]
        obtain ⟨final, last, result, invLast, empty, rest⟩ := ih live' s' inv' (by omega)
        exact ⟨final, last, result, invLast, empty, greedy.trans rest⟩

theorem Inv.merged (lawful : Lawful m text score priority) (inv : Inv m q text.length live s)
    (empty : q.elems s.queue = []) : Merged score (pieces text live s) := by
  intro pre' a' b' post' same
  obtain ⟨before, rest, split, rfl, behind⟩ := List.map_eq_append_iff.mp same
  obtain ⟨a, rest, rfl, rfl, next⟩ := List.map_eq_cons_iff.mp behind
  obtain ⟨b, after, rfl, rfl, rfl⟩ := List.map_eq_cons_iff.mp next
  obtain ⟨_, _, adjacent⟩ := (split ▸ inv.tiles.linked).adjacent
  rw [lawful.scored a b adjacent]
  cases proposal : m.propose a b (segmentAt s.segments a) (segmentAt s.segments b) with
  | none => rfl
  | some e =>
      have waiting := inv.complete before a b after e split proposal
      rw [empty] at waiting
      cases waiting

end Step

/-! ## Pushing the first pairs -/

section Seed

variable [LinearOrder S] {m : Merger ε} {q : PriorityQueue ε σ m.less} {text : List β}
  {score : List β → List β → Option S} {priority : ε → S}

theorem seed_fold (lawful : Lawful m text score priority) {live : List Nat} :
    ∀ (indices : List Nat) (s : State ε σ), Sound m q text.length live s →
    (∀ i ∈ indices, Neighbours live ((i : Int) - 1) i) →
    Sound m q text.length live
        (indices.foldl (fun s (i : Nat) => tryAdd m q ((i : Int) - 1) i s) s) ∧
      (indices.foldl (fun s (i : Nat) => tryAdd m q ((i : Int) - 1) i s) s).segments = s.segments ∧
      ∀ f, (f ∈ q.elems s.queue ∨ ∃ i, i + 1 ∈ indices ∧ m.propose i (i + 1)
          (segmentAt s.segments i) (segmentAt s.segments (i + 1)) = some f) →
        f ∈ q.elems (indices.foldl (fun s (i : Nat) => tryAdd m q ((i : Int) - 1) i s) s).queue := by
  intro indices
  induction indices with
  | nil =>
      intro s sound _
      refine ⟨sound, rfl, fun f member => ?_⟩
      rcases member with old | ⟨i, absent, _⟩
      · exact old
      · cases absent
  | cons j rest ih =>
      intro s sound neighbours
      obtain ⟨later, same, members⟩ := ih (tryAdd m q ((j : Int) - 1) j s)
        (tryAdd_sound lawful sound (neighbours j (by simp)))
        fun i member => neighbours i (by simp [member])
      rw [tryAdd_segments] at same members
      refine ⟨later, same, fun f member => members f ?_⟩
      rw [mem_tryAdd]
      rcases member with old | ⟨i, among, proposal⟩
      · exact Or.inl (Or.inl old)
      · rcases List.mem_cons.mp among with rfl | among
        · refine Or.inl (Or.inr ⟨by omega, by omega, ?_⟩)
          have before : ((i + 1 : Nat) : Int) - 1 = (i : Nat) := by omega
          rw [before, Int.toNat_natCast, Int.toNat_natCast]
          exact proposal
        · exact Or.inr ⟨i, among, proposal⟩

theorem range_split (n i : Nat) (inside : i + 1 < n) :
    List.range n = List.range i ++ i :: (i + 1) :: List.range' (i + 2) (n - (i + 2)) := by
  obtain ⟨k, rfl⟩ : ∃ k, n = i + 2 + k := ⟨n - (i + 2), by omega⟩
  rw [List.range_eq_range', List.range_eq_range', Nat.add_sub_cancel_left, Nat.add_assoc,
    ← List.range'_append_1, Nat.zero_add, Nat.add_comm 2 k, List.range'_succ, List.range'_succ]

theorem seed_inv (lawful : Lawful m text score priority) {lengths : List Nat}
    (positive : ∀ n ∈ lengths, 0 < n) (total : lengths.sum = text.length) :
    Inv m q text.length (List.range lengths.length) (seed m q (ofLengths 0 0 lengths)) ∧
      (seed m q (ofLengths 0 0 lengths)).segments = ofLengths 0 0 lengths := by
  have start : Sound m q text.length (List.range lengths.length)
      { segments := ofLengths 0 0 lengths, queue := q.empty, pushed := [] } := by
    refine ⟨total ▸ tiles_ofLengths positive, ?_, ?_⟩
    · intro e member
      rw [q.elems_empty] at member
      cases member
    · intro e member
      cases member
  obtain ⟨sound, same, members⟩ := seed_fold lawful
    (List.range' 1 ((ofLengths 0 0 lengths).length - 1)) _ start (by
      intro i member
      rw [length_ofLengths] at member
      obtain ⟨low, high⟩ := List.mem_range'_1.mp member
      obtain ⟨j, rfl⟩ : ∃ j, i = j + 1 := ⟨i - 1, by omega⟩
      exact Or.inr (Or.inr ⟨_, j, j + 1, _, range_split lengths.length j (by omega), by omega,
        rfl⟩))
  refine ⟨⟨sound, ?_⟩, same⟩
  intro pre a b post f split proposal
  have next : b = a + 1 ∧ b < lengths.length := by
    have atA : (List.range lengths.length)[pre.length]? = some a := by rw [split]; simp
    have atB : (List.range lengths.length)[pre.length + 1]? = some b := by rw [split]; simp
    obtain ⟨_, rfl⟩ := List.getElem?_eq_some_iff.mp atA
    obtain ⟨inside, rfl⟩ := List.getElem?_eq_some_iff.mp atB
    simpa using inside
  obtain ⟨rfl, inside⟩ := next
  rw [seed] at proposal ⊢
  rw [same] at proposal
  refine members f (Or.inr ⟨a, ?_, proposal⟩)
  rw [length_ofLengths]
  exact List.mem_range'_1.mpr (by omega)

theorem length_seed (segments : List Segment) :
    (q.elems (seed m q segments).queue).length ≤ segments.length - 1 := by
  have fold : ∀ (indices : List Nat) (s : State ε σ),
      (q.elems (indices.foldl (fun s (i : Nat) => tryAdd m q ((i : Int) - 1) i s) s).queue).length ≤
        (q.elems s.queue).length + indices.length := by
    intro indices
    induction indices with
    | nil => intro s; exact Nat.le_refl _
    | cons i rest ih =>
        intro s
        have later := ih (tryAdd m q ((i : Int) - 1) i s)
        have one := length_tryAdd (m := m) (q := q) ((i : Int) - 1) i s
        rw [List.foldl_cons, List.length_cons]
        omega
  have all := fold (List.range' 1 (segments.length - 1))
    { segments := segments, queue := q.empty, pushed := [] }
  rw [q.elems_empty, List.length_range', List.length_nil, Nat.zero_add] at all
  exact all

/-- The queue merges the pieces as far as the plain algorithm does, and comes to an end. -/
theorem mergeAll_greedy (lawful : Lawful m text score priority) {start : List (List β)}
    (positive : ∀ piece ∈ start, piece ≠ []) (spelled : start.flatten = text) :
    ∃ final live,
      mergeAll m q (4 * start.length + 1) (seed m q (ofLengths 0 0 (start.map List.length))) =
        some final ∧
      Inv m q text.length live final ∧
      Relation.ReflTransGen (Greedy score) start (pieces text live final) ∧
      Merged score (pieces text live final) := by
  have lengths : ∀ n ∈ start.map List.length, 0 < n := by
    intro n member
    obtain ⟨piece, among, rfl⟩ := List.mem_map.mp member
    exact List.length_pos_iff.mpr (positive piece among)
  have total : (start.map List.length).sum = text.length := by
    rw [← spelled, List.length_flatten]
  obtain ⟨inv, same⟩ := seed_inv (q := q) lawful lengths total
  have enough : weight q (List.range (start.map List.length).length)
      (seed m q (ofLengths 0 0 (start.map List.length))) < 4 * start.length + 1 := by
    have bound := length_seed (m := m) (q := q) (ofLengths 0 0 (start.map List.length))
    rw [length_ofLengths, List.length_map] at bound
    simp only [weight, List.length_range, List.length_map]
    omega
  obtain ⟨final, live, result, invLast, empty, greedy⟩ := mergeAll_runs lawful _ _ _ inv enough
  have begin : pieces text (List.range (start.map List.length).length)
      (seed m q (ofLengths 0 0 (start.map List.length))) = start := by
    have cut := content_ofLengths start ([] : List β) 0
    rw [List.nil_append, List.length_nil, spelled] at cut
    rw [pieces, same]
    conv_rhs => rw [← cut, ← map_segmentAt_range (ofLengths 0 0 (start.map List.length))]
    rw [length_ofLengths, List.map_map]
    rfl
  rw [begin] at greedy
  exact ⟨final, live, result, invLast, greedy, invLast.merged lawful empty⟩

end Seed

end MineGPT.Lib.MergeQueue
