import MineGPT.Ui.Loading

/-!
# One load, of the chosen file

A click that finds `initLLM` clear sets it in a step of its own, and the load it
launches reads `modelPath` once for the reader and once more for the talker.  The
ledger keeps, beside the screen, which path each click picked, which click
launched each load, and what the loads asked for.
-/

set_option autoImplicit false

namespace MineGPT.Ui.Loading

open MineGPT.Lib.Machine MineGPT.Lib.Components

structure Ledger where
  screen : LoadingScreen
  /-- The paths that `getLLMFilePath` returned, and to which click. -/
  picks : List (Nat × KString)
  /-- The click that launched each load. -/
  owners : List Nat
  /-- The calls of `llmReader.loadModel`, by load. -/
  reads : List (Nat × KString)
  /-- The calls of `llmTalker.create`, whether they return or throw. -/
  creates : List (Nat × KString)
  deriving DecidableEq, Repr

namespace LoadingScreen

def picksBy : Action → List (Nat × KString)
  | .clickStep k (.picked path) => [(k, path)]
  | _ => []

def ownersBy (v : LoadingScreen) : Action → List Nat
  | .clickStep k _ => if v.clicks[k]? = some .launch then [k] else []
  | _ => []

def readsBy (v : LoadingScreen) : Action → List (Nat × KString)
  | .loadStep j _ => if v.loads[j]? = some .loadModel then [(j, v.modelPath)] else []
  | _ => []

def createsBy (v : LoadingScreen) : Action → List (Nat × KString)
  | .loadStep j _ =>
    match v.loads[j]? with
    | some (.create (some _) (some _)) => [(j, v.modelPath)]
    | _ => []
  | _ => []

end LoadingScreen

namespace Ledger

def step (s : Ledger) (a : Action) : Option Ledger :=
  (s.screen.step a).map fun screen =>
    { screen := screen
      picks := s.picks ++ LoadingScreen.picksBy a
      owners := s.owners ++ s.screen.ownersBy a
      reads := s.reads ++ s.screen.readsBy a
      creates := s.creates ++ s.screen.createsBy a }

def init : Ledger :=
  { screen := LoadingScreen.init, picks := [], owners := [], reads := [], creates := [] }

end Ledger

/-- The talker is created once at most, and every path that a load asks for is the
pick of the click that launched the load. -/
structure LoadedOnce (s : Ledger) : Prop where
  once : s.creates.length ≤ 1
  chosen : ∀ call ∈ s.reads ++ s.creates,
    ∃ k, s.owners[call.1]? = some k ∧ (k, call.2) ∈ s.picks

/-! ## The condition -/

/-- The click has found `initLLM` clear and has not launched its load. -/
def ClickPc.wins : ClickPc → Bool
  | .setLatch => true
  | .launch => true
  | _ => false

def LoadPc.uncreated : LoadPc → Bool
  | .emitLoading => true
  | .loadModel => true
  | .getContextSize => true
  | .getChatTemplate _ => true
  | .create _ _ => true
  | _ => false

def ClickPc.assigned : ClickPc → Option KString
  | .assign path => some path
  | _ => none

def Ledger.OwnerPicked (s : Ledger) (path : KString) (j : Nat) : Prop :=
  ∀ k ∈ s.owners[j]?, (k, path) ∈ s.picks

instance (s : Ledger) (path : KString) (j : Nat) : Decidable (s.OwnerPicked path j) :=
  inferInstanceAs (Decidable (∀ k ∈ s.owners[j]?, _))

/-- The path is the pick of every click that has won and whose load, launched or
not, still has to call `create`. -/
def Ledger.Agrees (s : Ledger) (path : KString) : Prop :=
  (∀ k < s.screen.clicks.length, s.screen.clicks[k]?.any ClickPc.wins = true →
    (k, path) ∈ s.picks) ∧
  ∀ j < s.screen.loads.length, s.screen.loads[j]?.any LoadPc.uncreated = true →
    s.OwnerPicked path j

/-- The condition on a step: a click that finds `initLLM` clear finds no other click
between its own check and `initLLM = true`, and its own pick in `modelPath`; and
no other path is assigned while a load is on its way to `create`. -/
def Undivided (s : Ledger) : Action → Prop
  | .clickStep k _ =>
    (s.screen.clicks[k]? = some .checkLatch → s.screen.initLLM = false →
      .setLatch ∉ s.screen.clicks ∧ (k, s.screen.modelPath) ∈ s.picks) ∧
    ∀ path ∈ s.screen.clicks[k]?.bind ClickPc.assigned, s.Agrees path
  | _ => True

instance (s : Ledger) (path : KString) : Decidable (s.Agrees path) :=
  inferInstanceAs (Decidable (_ ∧ _))

instance (s : Ledger) : (a : Action) → Decidable (Undivided s a)
  | .clickStep _ _ => inferInstanceAs (Decidable (_ ∧ _))
  | .click => isTrue trivial
  | .loadStep _ _ => isTrue trivial
  | .collect => isTrue trivial

/-! ## The ledger follows the screen -/

theorem run_screen : ∀ (actions : List Action) (s : Ledger),
    (runSteps Ledger.step s actions).map Ledger.screen =
      runSteps LoadingScreen.step s.screen actions := by
  intro actions
  induction actions with
  | nil => intro s; rfl
  | cons a rest ih =>
      intro s
      simp only [runSteps, Ledger.step]
      cases s.screen.step a with
      | none => rfl
      | some screen => exact ih _

/-- The ledger has the reads of the screen, and a call for each of its models. -/
structure Ledger.Follows (s : Ledger) : Prop where
  reads : s.screen.reads = s.reads.map Prod.snd
  models : ∀ model ∈ s.screen.models, model.path ∈ s.creates.map Prod.snd

theorem LoadPc.step_reads {v : LoadingScreen} {j : Nat} {pc pc' : LoadPc} {event : LoadEvent}
    {effect : Effect} (at_j : v.loads[j]? = some pc)
    (taken : pc.step v event = some (pc', effect)) :
    (v.apply effect).reads = v.reads ++ (v.readsBy (.loadStep j event)).map Prod.snd := by
  cases pc with
  | create size template =>
      cases size <;> cases template <;> cases event <;> cases taken <;>
        simp [LoadingScreen.apply, LoadingScreen.readsBy, at_j]
  | emitLoading | loadModel | getContextSize | getChatTemplate | addSystemPrompt | emitLoaded
  | ended =>
      cases event <;> cases taken <;> simp [LoadingScreen.apply, LoadingScreen.readsBy, at_j]

theorem LoadPc.Steps.models {v : LoadingScreen} {j : Nat} {pc pc' : LoadPc} {event : LoadEvent}
    {effect : Effect} (steps : pc.Steps v event pc' effect) (at_j : v.loads[j]? = some pc)
    {model : TalkerModel} (member : model ∈ (v.apply effect).models) :
    model.path ∈ v.models.map TalkerModel.path ∨
      model.path ∈ (v.createsBy (.loadStep j event)).map Prod.snd := by
  cases steps with
  | create size template =>
      rcases List.mem_cons.mp member with rfl | earlier
      · exact Or.inr (by simp [LoadingScreen.createsBy, at_j])
      · exact Or.inl (List.mem_map_of_mem earlier)
  | addSystemPrompt =>
      refine Or.inl ?_
      cases models : v.models with
      | nil => simp [LoadingScreen.apply, models] at member
      | cons first earlier =>
          simp only [LoadingScreen.apply, models, List.mem_cons] at member
          rcases member with rfl | member
          · exact List.mem_cons_self
          · exact List.mem_cons_of_mem _ (List.mem_map_of_mem member)
  | fails _ read =>
      rcases read with rfl | rfl <;> exact Or.inl (List.mem_map_of_mem member)
  | emitLoading | loadModel | contextSize | chatTemplate | emitLoaded =>
      exact Or.inl (List.mem_map_of_mem member)

theorem Ledger.Follows.step {s t : Ledger} {a : Action} (follows : s.Follows)
    (taken : s.step a = some t) : t.Follows := by
  obtain ⟨screen, stepped, rfl⟩ := Option.map_eq_some_iff.mp taken
  cases a with
  | click =>
      simp only [LoadingScreen.step] at stepped
      split at stepped <;> cases stepped
      exact ⟨by simp [follows.reads, LoadingScreen.readsBy],
        by simpa [LoadingScreen.createsBy] using follows.models⟩
  | collect =>
      cases stepped
      exact ⟨by simp [follows.reads, LoadingScreen.readsBy],
        by simpa [LoadingScreen.createsBy] using follows.models⟩
  | clickStep k event =>
      obtain ⟨pc, pc', effect, _, steps, rfl⟩ := LoadingScreen.step_click stepped
      have same : (s.screen.apply effect).reads = s.screen.reads ∧
          (s.screen.apply effect).models = s.screen.models := by
        cases steps <;> exact ⟨rfl, rfl⟩
      exact ⟨by simp [same, follows.reads, LoadingScreen.readsBy],
        by simpa [same, LoadingScreen.createsBy] using follows.models⟩
  | loadStep j event =>
      simp only [LoadingScreen.step] at stepped
      split at stepped
      · cases stepped
      · rename_i pc at_j
        obtain ⟨⟨pc', effect⟩, moved, rfl⟩ := Option.map_eq_some_iff.mp stepped
        refine ⟨by simp [LoadPc.step_reads at_j moved, follows.reads], fun model member => ?_⟩
        rw [List.map_append, List.mem_append]
        refine ((LoadPc.steps_of_step moved).models at_j member).imp_left fun earlier => ?_
        obtain ⟨other, there, same⟩ := List.mem_map.mp earlier
        exact same ▸ follows.models other there

theorem follows_run {actions : List Action} {s : Ledger}
    (run : runSteps Ledger.step .init actions = some s) : s.Follows := by
  have start : Ledger.init.Follows :=
    ⟨rfl, by simp [Ledger.init, LoadingScreen.init]⟩
  exact (visits_of_keep (fun _ _ _ before taken => before.step taken) start).finish run

/-! ## One winner -/

def LoadingScreen.Wins (v : LoadingScreen) (k : Nat) : Prop :=
  v.clicks[k]?.any ClickPc.wins = true

/-- There is one winner at most, first as a click, then as the one load, and
`modelPath` is what it picked until it has called `create`. -/
structure Single (s : Ledger) : Prop where
  owners : s.owners.length = s.screen.loads.length
  launching : .launch ∈ s.screen.clicks → s.screen.initLLM = true
  launched : s.screen.loads ≠ [] → s.screen.initLLM = true
  alone : ∀ j k, s.screen.Wins j → s.screen.Wins k → j = k
  waiting : ∀ k, s.screen.Wins k → s.screen.loads = []
  few : s.screen.loads.length ≤ 1
  agrees : s.Agrees s.screen.modelPath
  uncreated : (∀ pc ∈ s.screen.loads, pc.uncreated = true) → s.creates = []
  loadedOnce : LoadedOnce s

theorem single_init : Single Ledger.init where
  owners := rfl
  launching := by simp [Ledger.init, LoadingScreen.init]
  launched := by simp [Ledger.init, LoadingScreen.init]
  alone := by simp [LoadingScreen.Wins, Ledger.init, LoadingScreen.init]
  waiting := by simp [Ledger.init, LoadingScreen.init]
  few := by simp [Ledger.init, LoadingScreen.init]
  agrees := ⟨by simp [Ledger.init, LoadingScreen.init], by simp [Ledger.init, LoadingScreen.init]⟩
  uncreated := fun _ => rfl
  loadedOnce := ⟨by simp [Ledger.init], by simp [Ledger.init]⟩

theorem LoadingScreen.Wins.inside {v : LoadingScreen} {k : Nat} (wins : v.Wins k) :
    k < v.clicks.length := by
  obtain ⟨pc, at_k, _⟩ := (Option.any_eq_true _ _).mp wins
  exact (List.getElem?_eq_some_iff.mp at_k).1

theorem LoadingScreen.Wins.mem {v : LoadingScreen} {k : Nat} (wins : v.Wins k) :
    .setLatch ∈ v.clicks ∨ .launch ∈ v.clicks := by
  obtain ⟨pc, at_k, won⟩ := (Option.any_eq_true _ _).mp wins
  have member := List.mem_of_getElem? at_k
  unfold ClickPc.wins at won
  split at won
  · exact Or.inl member
  · exact Or.inr member
  · cases won

theorem LoadingScreen.wins_set {v w : LoadingScreen} {k : Nat} {pc pc' : ClickPc}
    (at_k : v.clicks[k]? = some pc) (moved : w.clicks = v.clicks.set k pc') (j : Nat) :
    w.Wins j ↔ if k = j then pc'.wins = true else v.Wins j := by
  have inside := (List.getElem?_eq_some_iff.mp at_k).1
  unfold Wins
  rw [moved]
  split
  · rename_i here
    subst here
    rw [List.getElem?_set_self inside, Option.any_some]
  · rename_i apart
    rw [List.getElem?_set_ne apart]

theorem LoadedOnce.more {s t : Ledger} (loadedOnce : LoadedOnce s) (picks : s.picks ⊆ t.picks)
    (owners' : List Nat) (owners : t.owners = s.owners ++ owners')
    (once : t.creates.length ≤ 1)
    (calls : ∀ call ∈ t.reads ++ t.creates, call ∈ s.reads ++ s.creates ∨
      ∃ k, s.owners[call.1]? = some k ∧ (k, call.2) ∈ s.picks) : LoadedOnce t where
  once := once
  chosen := by
    intro call member
    obtain ⟨k, owner, picked⟩ : ∃ k, s.owners[call.1]? = some k ∧ (k, call.2) ∈ s.picks := by
      rcases calls call member with old | new
      · exact loadedOnce.chosen call old
      · exact new
    have inside := (List.getElem?_eq_some_iff.mp owner).1
    exact ⟨k, by rw [owners, List.getElem?_append_left inside, owner], picks picked⟩

theorem Single.calm {s t : Ledger} (single : Single s)
    (loads : t.screen.loads = s.screen.loads)
    (latch : s.screen.initLLM = true → t.screen.initLLM = true)
    (launching : .launch ∈ t.screen.clicks → t.screen.initLLM = true)
    (wins : ∀ k, t.screen.Wins k → s.screen.Wins k)
    (agrees : t.Agrees t.screen.modelPath) (picks : s.picks ⊆ t.picks)
    (owners : t.owners = s.owners) (reads : t.reads = s.reads)
    (creates : t.creates = s.creates) : Single t where
  owners := by rw [owners, loads, single.owners]
  launching := launching
  launched := fun some => latch (single.launched (loads ▸ some))
  alone := fun j k first second => single.alone j k (wins j first) (wins k second)
  waiting := fun k won => loads.trans (single.waiting k (wins k won))
  few := loads ▸ single.few
  agrees := agrees
  uncreated := by
    rw [loads, creates]
    exact single.uncreated
  loadedOnce := by
    refine single.loadedOnce.more picks [] (by rw [owners, List.append_nil])
      (creates ▸ single.loadedOnce.once) fun call member => Or.inl ?_
    rwa [reads, creates] at member

theorem Ledger.Agrees.calm {s t : Ledger} {path : KString} (agrees : s.Agrees path)
    (loads : t.screen.loads = s.screen.loads)
    (wins : ∀ k, t.screen.Wins k → s.screen.Wins k) (picks : s.picks ⊆ t.picks)
    (owners : t.owners = s.owners) : t.Agrees path := by
  refine ⟨fun k _ won => ?_, fun j inside some k owner => ?_⟩
  · have before := wins k won
    exact picks (agrees.1 k before.inside before)
  · rw [loads] at inside some
    rw [owners] at owner
    exact picks (agrees.2 j inside some k owner)

/-! ## A step of a click -/

theorem LoadingScreen.unlatched_of_setLatch {v next : LoadingScreen} {k : Nat} {event : ClickEvent}
    (taken : v.step (.clickStep k event) = some next) (at_k : v.clicks[k]? = some .checkLatch)
    (passed : next.clicks[k]? = some .setLatch) : v.initLLM = false := by
  have inside := (List.getElem?_eq_some_iff.mp at_k).1
  cases latched : v.initLLM with
  | false => rfl
  | true =>
      cases event with
      | run =>
          simp only [step, at_k, ClickPc.step, latched, if_true, Option.map_some] at taken
          obtain rfl := Option.some.inj taken
          rw [List.getElem?_set_self inside] at passed
          cases passed
      | picked path | throws => simp [step, at_k, ClickPc.step] at taken

theorem Ledger.step_click {s t : Ledger} {k : Nat} {event : ClickEvent}
    (taken : s.step (.clickStep k event) = some t) :
    ∃ pc pc' effect, s.screen.clicks[k]? = some pc ∧ pc.Steps s.screen event pc' effect ∧
      t = { screen := { s.screen.apply effect with clicks := s.screen.clicks.set k pc' }
            picks := s.picks ++ LoadingScreen.picksBy (.clickStep k event)
            owners := s.owners ++ s.screen.ownersBy (.clickStep k event)
            reads := s.reads
            creates := s.creates } := by
  obtain ⟨screen, stepped, rfl⟩ := Option.map_eq_some_iff.mp taken
  obtain ⟨pc, pc', effect, at_k, steps, rfl⟩ := LoadingScreen.step_click stepped
  refine ⟨pc, pc', effect, at_k, steps, ?_⟩
  simp [LoadingScreen.readsBy, LoadingScreen.createsBy]

theorem Single.won {s : Ledger} (single : Single s) {k : Nat}
    (at_k : s.screen.clicks[k]? = some .checkLatch) (unlatched : s.screen.initLLM = false)
    (undivided : .setLatch ∉ s.screen.clicks ∧ (k, s.screen.modelPath) ∈ s.picks) :
    Single { s with
      screen := { s.screen with clicks := s.screen.clicks.set k .setLatch } } := by
  have nobody : ∀ j, ¬ s.screen.Wins j := by
    intro j won
    rcases won.mem with setting | launching
    · exact undivided.1 setting
    · exact absurd (single.launching launching) (by simp [unlatched])
  have unloaded : s.screen.loads = [] := by
    by_contra loaded
    exact absurd (single.launched loaded) (by simp [unlatched])
  have wins := LoadingScreen.wins_set
    (w := { s.screen with clicks := s.screen.clicks.set k .setLatch }) at_k rfl
  have winner : ∀ j, LoadingScreen.Wins
      { s.screen with clicks := s.screen.clicks.set k .setLatch } j → k = j := by
    intro j won
    by_contra apart
    rw [wins, if_neg apart] at won
    exact nobody j won
  refine ⟨single.owners, ?_, single.launched, ?_, fun _ _ => unloaded, single.few, ⟨?_, ?_⟩,
    single.uncreated, ⟨single.loadedOnce.once, single.loadedOnce.chosen⟩⟩
  · intro launching
    rcases List.mem_or_eq_of_mem_set launching with old | new
    · exact single.launching old
    · cases new
  · intro i j first second
    exact (winner i first).symm.trans (winner j second)
  · intro j _ won
    rw [← winner j won]
    exact undivided.2
  · intro j inside
    rw [unloaded] at inside
    exact absurd inside (Nat.not_lt_zero _)

theorem Single.launch {s : Ledger} (single : Single s) {k : Nat}
    (at_k : s.screen.clicks[k]? = some .launch) :
    Single { s with
      screen := { s.screen with
        loads := s.screen.loads ++ [.emitLoading]
        clicks := s.screen.clicks.set k .ended }
      owners := s.owners ++ [k] } := by
  have won : s.screen.Wins k := by simp [LoadingScreen.Wins, at_k, ClickPc.wins]
  have unloaded := single.waiting k won
  have unowned : s.owners = [] := by
    rw [← List.length_eq_zero_iff, single.owners, unloaded, List.length_nil]
  have latched := single.launching (List.mem_of_getElem? at_k)
  have picked := single.agrees.1 k won.inside won
  have wins := LoadingScreen.wins_set (w := { s.screen with
    loads := s.screen.loads ++ [.emitLoading]
    clicks := s.screen.clicks.set k .ended }) at_k rfl
  have nobody : ∀ j, ¬ LoadingScreen.Wins { s.screen with
      loads := s.screen.loads ++ [.emitLoading]
      clicks := s.screen.clicks.set k .ended } j := by
    intro j won'
    rw [wins] at won'
    split at won'
    · cases won'
    · rename_i apart
      exact apart (single.alone k j won won')
  refine ⟨?_, fun _ => latched, fun _ => latched, ?_, ?_, ?_, ⟨?_, ?_⟩, ?_, ?_⟩
  · simp [single.owners]
  · exact fun i j first => absurd first (nobody i)
  · exact fun j won' => absurd won' (nobody j)
  · simp [unloaded]
  · exact fun j _ won' => absurd won' (nobody j)
  · intro j _ _ owner member
    rw [unowned, List.nil_append] at member
    rw [List.mem_singleton.mp (List.mem_of_getElem? member)]
    exact picked
  · intro _
    exact single.uncreated (by simp [unloaded])
  · exact single.loadedOnce.more (List.Subset.refl _) _ rfl single.loadedOnce.once
      fun call member => Or.inl member

theorem Single.calmClick {s t : Ledger} (single : Single s) {k : Nat} {pc pc' : ClickPc}
    (at_k : s.screen.clicks[k]? = some pc)
    (clicks : t.screen.clicks = s.screen.clicks.set k pc') (calm : pc'.wins = true → pc.wins = true)
    (loads : t.screen.loads = s.screen.loads)
    (latch : s.screen.initLLM = true → t.screen.initLLM = true)
    (launching : pc' = .launch → t.screen.initLLM = true)
    (path : s.Agrees t.screen.modelPath) (picks : s.picks ⊆ t.picks)
    (owners : t.owners = s.owners) (reads : t.reads = s.reads)
    (creates : t.creates = s.creates) : Single t := by
  have wins : ∀ j, t.screen.Wins j → s.screen.Wins j := by
    intro j won
    rw [LoadingScreen.wins_set at_k clicks] at won
    split at won
    · rename_i here
      rw [← here, LoadingScreen.Wins, at_k, Option.any_some]
      exact calm won
    · exact won
  refine single.calm loads latch ?_ wins (path.calm loads wins picks owners) picks owners reads
    creates
  rw [clicks]
  intro member
  rcases List.mem_or_eq_of_mem_set member with old | new
  · exact latch (single.launching old)
  · exact launching new.symm

theorem Single.clickStep {s t : Ledger} (single : Single s) {k : Nat} {event : ClickEvent}
    (undivided : Undivided s (.clickStep k event))
    (taken : s.step (.clickStep k event) = some t) : Single t := by
  obtain ⟨screen, stepped, same⟩ := Option.map_eq_some_iff.mp taken
  obtain ⟨pc, pc', effect, at_k, steps, rfl⟩ := Ledger.step_click taken
  have more : s.picks ⊆ s.picks ++ LoadingScreen.picksBy (.clickStep k event) :=
    List.subset_append_left _ _
  cases steps with
  | unlatched =>
      have inside := (List.getElem?_eq_some_iff.mp at_k).1
      have clicks : screen.clicks = s.screen.clicks.set k .setLatch :=
        congrArg (fun t => t.screen.clicks) same
      have passed : screen.clicks[k]? = some .setLatch := by
        rw [clicks, List.getElem?_set_self inside]
      have unlatched := LoadingScreen.unlatched_of_setLatch stepped at_k passed
      simpa [LoadingScreen.apply, LoadingScreen.picksBy, LoadingScreen.ownersBy, at_k]
        using single.won at_k unlatched (undivided.1 at_k unlatched)
  | launch =>
      simpa [LoadingScreen.apply, LoadingScreen.picksBy, LoadingScreen.ownersBy, at_k]
        using single.launch at_k
  | setLatch =>
      exact single.calmClick at_k rfl (fun _ => rfl) rfl (fun _ => rfl) (fun _ => rfl)
        single.agrees more (by simp [LoadingScreen.ownersBy, at_k]) rfl rfl
  | assign path =>
      have agrees : s.Agrees path := undivided.2 path (by simp [at_k, ClickPc.assigned])
      exact single.calmClick at_k rfl (fun won => won) rfl (fun latched => latched) (by simp)
        agrees more (by simp [LoadingScreen.ownersBy, at_k]) rfl rfl
  | turnedAway | admitted | emitLoading | picked | pickThrows | blank | chosen | emitDefault
  | latched =>
      exact single.calmClick at_k rfl (fun won => won) rfl (fun latched => latched) (by simp)
        single.agrees more (by simp [LoadingScreen.ownersBy, at_k]) rfl rfl

/-! ## A step of a load -/

theorem LoadingScreen.readsBy_cases (v : LoadingScreen) (j : Nat) (event : LoadEvent) :
    v.readsBy (.loadStep j event) = [] ∨
      v.loads[j]? = some .loadModel ∧ v.readsBy (.loadStep j event) = [(j, v.modelPath)] := by
  simp only [readsBy]
  split
  · exact Or.inr ⟨‹_›, rfl⟩
  · exact Or.inl rfl

theorem LoadingScreen.createsBy_cases (v : LoadingScreen) (j : Nat) (event : LoadEvent) :
    v.createsBy (.loadStep j event) = [] ∨
      (∃ size template, v.loads[j]? = some (.create size template)) ∧
        v.createsBy (.loadStep j event) = [(j, v.modelPath)] := by
  simp only [createsBy]
  split
  · exact Or.inr ⟨⟨_, _, ‹_›⟩, rfl⟩
  · exact Or.inl rfl

theorem LoadPc.Steps.uncreated {v : LoadingScreen} {pc pc' : LoadPc} {event : LoadEvent}
    {effect : Effect} (steps : pc.Steps v event pc' effect) (later : pc'.uncreated = true) :
    pc.uncreated = true ∧ ∀ size template, pc ≠ .create size template := by
  cases steps with
  | emitLoading | loadModel | contextSize | chatTemplate => exact ⟨rfl, by simp⟩
  | fails | create | addSystemPrompt | emitLoaded => cases later

theorem LoadPc.Steps.frame {v : LoadingScreen} {pc pc' : LoadPc} {event : LoadEvent}
    {effect : Effect} (steps : pc.Steps v event pc' effect) :
    (v.apply effect).clicks = v.clicks ∧ (v.apply effect).initLLM = v.initLLM ∧
      (v.apply effect).modelPath = v.modelPath := by
  cases steps with
  | fails _ read => rcases read with rfl | rfl <;> exact ⟨rfl, rfl, rfl⟩
  | emitLoading | loadModel | contextSize | chatTemplate | create | addSystemPrompt
  | emitLoaded => exact ⟨rfl, rfl, rfl⟩

theorem Single.calls {s : Ledger} (single : Single s) (j : Nat) (event : LoadEvent)
    {call : Nat × KString}
    (asked : call ∈ s.screen.readsBy (.loadStep j event) ++
      s.screen.createsBy (.loadStep j event)) :
    ∃ k, s.owners[call.1]? = some k ∧ (k, call.2) ∈ s.picks := by
  obtain ⟨⟨pc, at_j, waits⟩, rfl⟩ :
      (∃ pc, s.screen.loads[j]? = some pc ∧ pc.uncreated = true) ∧
        call = (j, s.screen.modelPath) := by
    rcases List.mem_append.mp asked with read | create
    · rcases s.screen.readsBy_cases j event with nothing | ⟨at_j, same⟩
      · rw [nothing] at read
        cases read
      · rw [same] at read
        exact ⟨⟨_, at_j, rfl⟩, List.mem_singleton.mp read⟩
    · rcases s.screen.createsBy_cases j event with nothing | ⟨⟨size, template, at_j⟩, same⟩
      · rw [nothing] at create
        cases create
      · rw [same] at create
        exact ⟨⟨_, at_j, rfl⟩, List.mem_singleton.mp create⟩
  have inside := (List.getElem?_eq_some_iff.mp at_j).1
  obtain ⟨k, owner⟩ : ∃ k, s.owners[j]? = some k :=
    ⟨_, List.getElem?_eq_getElem (single.owners ▸ inside)⟩
  exact ⟨k, owner, single.agrees.2 j inside (by simp [at_j, waits]) k owner⟩

theorem Single.loadStep {s t : Ledger} (single : Single s) {j : Nat} {event : LoadEvent}
    (taken : s.step (.loadStep j event) = some t) : Single t := by
  obtain ⟨screen, stepped, rfl⟩ := Option.map_eq_some_iff.mp taken
  obtain ⟨pc, pc', effect, at_j, steps, rfl⟩ := LoadingScreen.step_load stepped
  obtain ⟨clicks, latch, path⟩ := steps.frame
  have member := List.mem_of_getElem? at_j
  have inside := (List.getElem?_eq_some_iff.mp at_j).1
  have loaded : s.screen.loads ≠ [] := List.ne_nil_of_mem member
  -- it is the only load, and no click wins any more
  have only : ∀ i, i < s.screen.loads.length → i = j := by
    have few := single.few
    intro i within
    omega
  have nobody : ∀ k, ¬ LoadingScreen.Wins
      { s.screen.apply effect with loads := s.screen.loads.set j pc' } k := by
    intro k won
    simp only [LoadingScreen.Wins, clicks] at won
    exact loaded (single.waiting k won)
  have fresh : pc.uncreated = true → s.creates = [] := by
    intro waits
    refine single.uncreated fun other there => ?_
    obtain ⟨i, at_i⟩ := List.mem_iff_getElem?.mp there
    rw [only i (List.getElem?_eq_some_iff.mp at_i).1, at_j] at at_i
    rwa [← Option.some.inj at_i]
  refine ⟨?_, ?_, ?_, ?_, ?_, ?_, ⟨?_, ?_⟩, ?_, ?_⟩
  · simp [LoadingScreen.ownersBy, single.owners]
  · simp only [clicks, latch]
    exact single.launching
  · simp only [latch]
    exact fun _ => single.launched loaded
  · exact fun i k first => absurd first (nobody i)
  · exact fun k won => absurd won (nobody k)
  · simp only [List.length_set]
    exact single.few
  · exact fun k _ won => absurd won (nobody k)
  · intro i within waits k owner
    simp only [List.length_set] at within
    obtain rfl := only i within
    simp only [List.getElem?_set_self inside, Option.any_some] at waits
    simp only [LoadingScreen.ownersBy, List.append_nil] at owner
    simp only [LoadingScreen.picksBy, List.append_nil, path]
    exact single.agrees.2 i inside (by simp [at_j, (steps.uncreated waits).1]) k owner
  · intro all
    obtain ⟨waits, other⟩ := steps.uncreated (all pc' (mem_set_self pc' at_j))
    rcases s.screen.createsBy_cases j event with nothing | ⟨⟨size, template, creating⟩, _⟩
    · simp only [nothing, List.append_nil]
      exact fresh waits
    · exact absurd (Option.some.inj (at_j.symm.trans creating)) (other size template)
  · refine single.loadedOnce.more (List.subset_append_left _ _) _ rfl ?_ fun call asked => ?_
    · rcases s.screen.createsBy_cases j event with nothing | ⟨⟨size, template, creating⟩, same⟩
      · simp only [nothing, List.append_nil]
        exact single.loadedOnce.once
      · obtain rfl := Option.some.inj (at_j.symm.trans creating)
        simp [fresh rfl, same]
    · simp only [List.mem_append] at asked
      by_cases old : call ∈ s.reads ++ s.creates
      · exact Or.inl old
      · refine Or.inr (single.calls j event ?_)
        simp only [List.mem_append] at old ⊢
        tauto

/-! ## Every run -/

theorem single_step {s t : Ledger} {a : Action} (single : Single s) (undivided : Undivided s a)
    (taken : s.step a = some t) : Single t := by
  cases a with
  | clickStep k event => exact single.clickStep undivided taken
  | loadStep j event => exact single.loadStep taken
  | collect =>
      cases taken
      exact single.calm rfl (fun latched => latched) single.launching (fun _ won => won)
        (single.agrees.calm rfl (fun _ won => won) (List.subset_append_left _ _)
          (List.append_nil _))
        (List.subset_append_left _ _) (List.append_nil _) (List.append_nil _) (List.append_nil _)
  | click =>
      obtain ⟨screen, stepped, rfl⟩ := Option.map_eq_some_iff.mp taken
      simp only [LoadingScreen.step] at stepped
      split at stepped <;> cases stepped
      have wins : ∀ k, LoadingScreen.Wins
          { s.screen with clicks := s.screen.clicks ++ [.checkState] } k → s.screen.Wins k := by
        intro k won
        obtain ⟨pc, at_k, here⟩ := (Option.any_eq_true _ _).mp won
        rcases getElem?_concat_cases at_k with old | ⟨_, rfl⟩
        · exact (Option.any_eq_true _ _).mpr ⟨pc, old, here⟩
        · cases here
      refine single.calm rfl (fun latched => latched) ?_ wins
        (single.agrees.calm rfl wins (List.subset_append_left _ _) (List.append_nil _))
        (List.subset_append_left _ _) (List.append_nil _) (List.append_nil _) (List.append_nil _)
      intro launching
      rcases List.mem_append.mp launching with old | new
      · exact single.launching old
      · cases List.mem_singleton.mp new

/-- In a run whose clicks do not meet at the latch, and in which nothing else is
assigned between the winner's check and its load's call of `create`, the model is
loaded once at most, from the file the winner picked. -/
theorem loadedOnce_of_undivided {actions : List Action}
    (undivided : StepsMeet Ledger.step Undivided .init actions) :
    Visits Ledger.step LoadedOnce .init actions := by
  have single : Visits Ledger.step Single .init actions :=
    visits_of_stepsMeet (fun _ _ _ before meets taken => single_step before meets taken)
      single_init undivided
  exact single.mono fun _ state => state.loadedOnce

theorem loadedOnce_of_undivided_cancelled :
    Visits Ledger.step LoadedOnce .init cancelledThenLoaded :=
  loadedOnce_of_undivided (by decide +kernel)

def loadUpToCreate (j : Nat) : List Action :=
  [.loadStep j .run, .loadStep j .run, .loadStep j (.contextSize (some 2048)),
    .loadStep j (.chatTemplate (some (kstring "chatml"))), .loadStep j .run]

/-- Two clicks that pick a file each and pass the two checks side by side. -/
def twoClicks : List Action :=
  [.click, .click, .clickStep 0 .run, .clickStep 1 .run, .clickStep 0 .run, .clickStep 1 .run,
    .clickStep 0 (.picked (kstring "a.gguf")), .clickStep 1 (.picked (kstring "b.gguf"))] ++
  (List.replicate 5 [.clickStep 0 .run, .clickStep 1 .run]).flatten ++
  loadUpToCreate 0 ++ loadUpToCreate 1

def twoClicksEnd : Ledger := (runSteps Ledger.step .init twoClicks).getD .init

/-- The talker is created twice, each time with the second click's file. -/
theorem not_loadedOnce_twoClicks :
    runSteps Ledger.step .init twoClicks = some twoClicksEnd ∧
      twoClicksEnd.owners = [0, 1] ∧
      twoClicksEnd.picks = [(0, kstring "a.gguf"), (1, kstring "b.gguf")] ∧
      twoClicksEnd.creates = [(0, kstring "b.gguf"), (1, kstring "b.gguf")] ∧
      ¬ Visits Ledger.step LoadedOnce .init twoClicks := by
  have run : runSteps Ledger.step .init twoClicks = some twoClicksEnd := by decide +kernel
  have creates : twoClicksEnd.creates = [(0, kstring "b.gguf"), (1, kstring "b.gguf")] := by
    decide +kernel
  refine ⟨run, by decide +kernel, by decide +kernel, creates, fun visits => ?_⟩
  have once := (visits.finish run).once
  simp [creates] at once

end MineGPT.Ui.Loading
