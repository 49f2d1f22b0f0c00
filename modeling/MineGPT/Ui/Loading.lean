import MineGPT.Lib.Components
import MineGPT.Ui.ViewModel

/-!
# Loading a model

A click on the dialog launches a coroutine that picks a file and calls
`initLLM`, which launches the load in a coroutine of its own.  How far this has
come is told by two members that both kinds of coroutines write:
`loadingLLMState` (0 default, 1 loading, 2 loading completely) and the latch
`initLLM`.

A coroutine is a program counter: each read or write of a shared member and each
call is one step.
-/

set_option autoImplicit false

namespace MineGPT.Ui.Loading

open MineGPT.Lib MineGPT.Lib.Machine MineGPT.Lib.Components

/-- Where a click stands in `selectAction`, `selectLLMModelFile` and `initLLM`. -/
inductive ClickPc where
  /-- `if (loadingLLMState.value == 1) return@launch` -/
  | checkState
  | emitLoading
  | getLLMFilePath
  | assign (path : KString)
  /-- `return modelPath`, which need not be the path just assigned. -/
  | readPath
  | emitDefault
  /-- `if (initLLM) return` -/
  | checkLatch
  | setLatch
  | launch
  | ended
  deriving DecidableEq, Repr

inductive LoadPc where
  | emitLoading
  | loadModel
  | getContextSize
  | getChatTemplate (contextSize : Option Int)
  | create (contextSize : Option Int) (chatTemplate : Option KString)
  | addSystemPrompt
  | emitLoaded
  | ended (loaded : Bool)
  deriving DecidableEq, Repr

inductive ClickEvent where
  | run
  /-- The file dialog returns; the path is empty when it was cancelled. -/
  | picked (path : KString)
  | throws
  deriving DecidableEq, Repr

inductive LoadEvent where
  | run
  | contextSize (read : Option Int)
  | chatTemplate (read : Option KString)
  | throws
  deriving DecidableEq, Repr

inductive Effect where
  | none
  | emit (state : Nat)
  | setModelPath (path : KString)
  | setLatch
  | launch
  | loadModel (path : KString)
  | create (path : KString)
  | addSystemPrompt
  deriving DecidableEq, Repr

/-- A model that `LLMTalker.create` has created. -/
structure TalkerModel where
  path : KString
  systemPrompt : Bool
  deriving DecidableEq, Repr

structure LoadingScreen where
  loadingLLMState : Nat
  modelPath : KString
  initLLM : Bool
  showFileDialog : Bool
  /-- The paths that `llmReader.loadModel` was called with. -/
  reads : List KString
  /-- The models created, the one `llmTalker` uses first. -/
  models : List TalkerModel
  clicks : List ClickPc
  loads : List LoadPc
  deriving DecidableEq, Repr

def ClickPc.step (v : LoadingScreen) : ClickPc → ClickEvent → Option (ClickPc × Effect)
  | .checkState, .run => some (if v.loadingLLMState = 1 then .ended else .emitLoading, .none)
  | .emitLoading, .run => some (.getLLMFilePath, .emit 1)
  | .getLLMFilePath, .picked path => some (.assign path, .none)
  | .getLLMFilePath, .throws => some (.ended, .none)
  | .assign path, .run => some (.readPath, .setModelPath path)
  | .readPath, .run => some (if isBlank v.modelPath then .emitDefault else .checkLatch, .none)
  | .emitDefault, .run => some (.ended, .emit 0)
  | .checkLatch, .run => some (if v.initLLM then .ended else .setLatch, .none)
  | .setLatch, .run => some (.launch, .setLatch)
  | .launch, .run => some (.ended, .launch)
  | _, _ => none

/-- An exception leaves the coroutine; nothing catches it. -/
def LoadPc.step (v : LoadingScreen) : LoadPc → LoadEvent → Option (LoadPc × Effect)
  | .emitLoading, .run => some (.loadModel, .emit 1)
  | .loadModel, .run => some (.getContextSize, .loadModel v.modelPath)
  | .loadModel, .throws => some (.ended false, .loadModel v.modelPath)
  | .getContextSize, .contextSize read => some (.getChatTemplate read, .none)
  | .getContextSize, .throws => some (.ended false, .none)
  | .getChatTemplate contextSize, .chatTemplate read => some (.create contextSize read, .none)
  | .getChatTemplate _, .throws => some (.ended false, .none)
  -- `contextSize!!` and `chatTemplate!!`
  | .create (some _) (some _), .run => some (.addSystemPrompt, .create v.modelPath)
  | .create _ _, .run => some (.ended false, .none)
  | .create _ _, .throws => some (.ended false, .none)
  | .addSystemPrompt, .run => some (.emitLoaded, .addSystemPrompt)
  | .addSystemPrompt, .throws => some (.ended false, .none)
  | .emitLoaded, .run => some (.ended true, .emit 2)
  | _, _ => none

namespace LoadingScreen

def init : LoadingScreen where
  loadingLLMState := 0
  modelPath := kstring "D:\\models\\llama2-7b-chat.gguf"
  initLLM := false
  showFileDialog := true
  reads := []
  models := []
  clicks := []
  loads := []

def apply (v : LoadingScreen) : Effect → LoadingScreen
  | .none => v
  | .emit state => { v with loadingLLMState := state }
  | .setModelPath path => { v with modelPath := path }
  | .setLatch => { v with initLLM := true }
  | .launch => { v with loads := v.loads ++ [.emitLoading] }
  | .loadModel path => { v with reads := v.reads ++ [path] }
  | .create path => { v with models := { path := path, systemPrompt := false } :: v.models }
  | .addSystemPrompt =>
    { v with
      models := match v.models with
        | [] => []
        | model :: earlier => { model with systemPrompt := true } :: earlier }

end LoadingScreen

inductive Action where
  | click
  | clickStep (k : Nat) (event : ClickEvent)
  | loadStep (k : Nat) (event : LoadEvent)
  /-- The screen collects `loadingLLMState`. -/
  | collect
  deriving DecidableEq, Repr

/-- The dialog can be clicked as long as it is shown. -/
def LoadingScreen.step (v : LoadingScreen) : Action → Option LoadingScreen
  | .click => if v.showFileDialog then some { v with clicks := v.clicks ++ [.checkState] } else none
  | .clickStep k event =>
    match v.clicks[k]? with
    | none => none
    | some pc =>
      (pc.step v event).map fun (pc', effect) =>
        { v.apply effect with clicks := v.clicks.set k pc' }
  | .loadStep k event =>
    match v.loads[k]? with
    | none => none
    | some pc =>
      (pc.step v event).map fun (pc', effect) =>
        { v.apply effect with loads := v.loads.set k pc' }
  | .collect =>
    some { v with showFileDialog := v.showFileDialog && v.loadingLLMState != 2 }

/-! ## The law -/

/-- The click has put the state to 1, and its file is not picked or not dealt
with. -/
def ClickPc.picking : ClickPc → Bool
  | .checkState => false
  | .emitLoading => false
  | .ended => false
  | _ => true

def LoadPc.running : LoadPc → Bool
  | .ended _ => false
  | _ => true

namespace LoadingScreen

def Quiescent (v : LoadingScreen) : Prop :=
  (∀ pc ∈ v.clicks, pc.picking = false) ∧ ∀ pc ∈ v.loads, pc.running = false

def Loads (v : LoadingScreen) : Prop := ∃ pc ∈ v.loads, pc.running = true

def Succeeded (v : LoadingScreen) : Prop := LoadPc.ended true ∈ v.loads

/-- The next click, the choice of this file, and what follows up to the moment
the file is read. -/
def attempt (v : LoadingScreen) (file : KString) : List Action :=
  let click := Action.clickStep v.clicks.length
  let load := Action.loadStep v.loads.length
  [.click, click .run, click .run, click (.picked file), click .run, click .run, click .run,
    click .run, click .run, load .run, load .run]

end LoadingScreen

structure Retryable (v : LoadingScreen) : Prop where
  idle : v.Quiescent → v.loadingLLMState ≠ 1
  loaded : v.loadingLLMState = 2 → ∃ model ∈ v.models, model.systemPrompt = true
  retry : v.Quiescent → ¬ v.Succeeded → ∀ file, isBlank file = false →
    ∃ next, runSteps LoadingScreen.step v (v.attempt file) = some next ∧
      next.reads = v.reads ++ [file]

/-! ## The condition -/

/-- The step is an exception, or the `!!` of a value that could not be read. -/
def LoadPc.fails : LoadPc → LoadEvent → Bool
  | .create (some _) (some _), .run => false
  | .create _ _, .run => true
  | _, .throws => true
  | _, _ => false

/-- The condition on a step: no pick throws, no step of a load fails, and a click
that has chosen a file finds no load started before, or one still running. -/
def Unfailing (v : LoadingScreen) : Action → Prop
  | .clickStep k event =>
    event ≠ .throws ∧ (v.clicks[k]? = some .checkLatch → v.initLLM = true → v.Loads)
  | .loadStep k event => ∀ pc ∈ v.loads[k]?, pc.fails event = false
  | .click => True
  | .collect => True

instance (v : LoadingScreen) : Decidable v.Loads :=
  inferInstanceAs (Decidable (∃ pc ∈ v.loads, _))

instance (v : LoadingScreen) : (a : Action) → Decidable (Unfailing v a)
  | .clickStep _ _ => inferInstanceAs (Decidable (_ ∧ _))
  | .loadStep k _ => inferInstanceAs (Decidable (∀ pc ∈ v.loads[k]?, _))
  | .click => isTrue trivial
  | .collect => isTrue trivial

/-! ## What a step can do -/

inductive ClickPc.Steps (v : LoadingScreen) : ClickPc → ClickEvent → ClickPc → Effect → Prop where
  | turnedAway (loading : v.loadingLLMState = 1) : Steps v .checkState .run .ended .none
  | admitted : Steps v .checkState .run .emitLoading .none
  | emitLoading : Steps v .emitLoading .run .getLLMFilePath (.emit 1)
  | picked (path : KString) : Steps v .getLLMFilePath (.picked path) (.assign path) .none
  | pickThrows : Steps v .getLLMFilePath .throws .ended .none
  | assign (path : KString) : Steps v (.assign path) .run .readPath (.setModelPath path)
  | blank : Steps v .readPath .run .emitDefault .none
  | chosen : Steps v .readPath .run .checkLatch .none
  | emitDefault : Steps v .emitDefault .run .ended (.emit 0)
  | latched (latched : v.initLLM = true) : Steps v .checkLatch .run .ended .none
  | unlatched : Steps v .checkLatch .run .setLatch .none
  | setLatch : Steps v .setLatch .run .launch .setLatch
  | launch : Steps v .launch .run .ended .launch

theorem ClickPc.steps_of_step {v : LoadingScreen} {pc pc' : ClickPc} {event : ClickEvent}
    {effect : Effect} (taken : pc.step v event = some (pc', effect)) :
    Steps v pc event pc' effect := by
  cases pc with
  | checkState =>
      cases event <;> cases taken
      split
      · exact .turnedAway ‹_›
      · exact .admitted
  | emitLoading => cases event <;> cases taken; exact .emitLoading
  | getLLMFilePath =>
      cases event <;> cases taken
      · exact .picked _
      · exact .pickThrows
  | assign path => cases event <;> cases taken; exact .assign path
  | readPath =>
      cases event <;> cases taken
      split
      · exact .blank
      · exact .chosen
  | emitDefault => cases event <;> cases taken; exact .emitDefault
  | checkLatch =>
      cases event <;> cases taken
      split
      · exact .latched ‹_›
      · exact .unlatched
  | setLatch => cases event <;> cases taken; exact .setLatch
  | launch => cases event <;> cases taken; exact .launch
  | ended => cases event <;> cases taken

/-- A step of a load that fails ends it with at most the read of the file done. -/
inductive LoadPc.Steps (v : LoadingScreen) : LoadPc → LoadEvent → LoadPc → Effect → Prop where
  | fails {pc : LoadPc} {event : LoadEvent} {effect : Effect} (fails : pc.fails event = true)
      (read : effect = .none ∨ effect = .loadModel v.modelPath) :
      Steps v pc event (.ended false) effect
  | emitLoading : Steps v .emitLoading .run .loadModel (.emit 1)
  | loadModel : Steps v .loadModel .run .getContextSize (.loadModel v.modelPath)
  | contextSize (read : Option Int) :
      Steps v .getContextSize (.contextSize read) (.getChatTemplate read) .none
  | chatTemplate (size : Option Int) (read : Option KString) :
      Steps v (.getChatTemplate size) (.chatTemplate read) (.create size read) .none
  | create (size : Int) (template : KString) :
      Steps v (.create (some size) (some template)) .run .addSystemPrompt (.create v.modelPath)
  | addSystemPrompt : Steps v .addSystemPrompt .run .emitLoaded .addSystemPrompt
  | emitLoaded : Steps v .emitLoaded .run (.ended true) (.emit 2)

theorem LoadPc.steps_of_step {v : LoadingScreen} {pc pc' : LoadPc} {event : LoadEvent}
    {effect : Effect} (taken : pc.step v event = some (pc', effect)) :
    Steps v pc event pc' effect := by
  cases pc with
  | emitLoading => cases event <;> cases taken; exact .emitLoading
  | loadModel =>
      cases event <;> cases taken
      · exact .loadModel
      · exact .fails rfl (Or.inr rfl)
  | getContextSize =>
      cases event <;> cases taken
      · exact .contextSize _
      · exact .fails rfl (Or.inl rfl)
  | getChatTemplate size =>
      cases event <;> cases taken
      · exact .chatTemplate size _
      · exact .fails rfl (Or.inl rfl)
  | create size template =>
      cases event with
      | run =>
          cases size with
          | none => cases template <;> cases taken <;> exact .fails rfl (Or.inl rfl)
          | some size =>
              cases template with
              | none => cases taken; exact .fails rfl (Or.inl rfl)
              | some template => cases taken; exact .create size template
      | throws => cases size <;> cases template <;> cases taken <;> exact .fails rfl (Or.inl rfl)
      | contextSize | chatTemplate => cases size <;> cases template <;> cases taken
  | addSystemPrompt =>
      cases event <;> cases taken
      · exact .addSystemPrompt
      · exact .fails rfl (Or.inl rfl)
  | emitLoaded => cases event <;> cases taken; exact .emitLoaded
  | ended loaded => cases event <;> cases taken

theorem LoadingScreen.step_click {v next : LoadingScreen} {k : Nat} {event : ClickEvent}
    (taken : v.step (.clickStep k event) = some next) :
    ∃ pc pc' effect, v.clicks[k]? = some pc ∧ ClickPc.Steps v pc event pc' effect ∧
      next = { v.apply effect with clicks := v.clicks.set k pc' } := by
  simp only [step] at taken
  split at taken
  · cases taken
  · rename_i pc at_k
    obtain ⟨⟨pc', effect⟩, stepped, rfl⟩ := Option.map_eq_some_iff.mp taken
    exact ⟨pc, pc', effect, at_k, ClickPc.steps_of_step stepped, rfl⟩

theorem LoadingScreen.step_load {v next : LoadingScreen} {k : Nat} {event : LoadEvent}
    (taken : v.step (.loadStep k event) = some next) :
    ∃ pc pc' effect, v.loads[k]? = some pc ∧ LoadPc.Steps v pc event pc' effect ∧
      next = { v.apply effect with loads := v.loads.set k pc' } := by
  simp only [step] at taken
  split at taken
  · cases taken
  · rename_i pc at_k
    obtain ⟨⟨pc', effect⟩, stepped, rfl⟩ := Option.map_eq_some_iff.mp taken
    exact ⟨pc, pc', effect, at_k, LoadPc.steps_of_step stepped, rfl⟩

/-! ## A model behind the state 2 -/

def LoadingScreen.Prompted (v : LoadingScreen) : Prop :=
  ∃ model ∈ v.models, model.systemPrompt = true

/-- What a load has done when it stands here. -/
def LoadPc.Backed (v : LoadingScreen) : LoadPc → Prop
  | .addSystemPrompt => v.models ≠ []
  | .emitLoaded => v.Prompted
  | _ => True

structure LoadingScreen.Backed (v : LoadingScreen) : Prop where
  loaded : v.loadingLLMState = 2 → v.Prompted
  loads : ∀ pc ∈ v.loads, pc.Backed v

structure LoadingScreen.MoreModels (v w : LoadingScreen) : Prop where
  some : v.models ≠ [] → w.models ≠ []
  prompted : v.Prompted → w.Prompted

theorem LoadPc.Backed.mono {v w : LoadingScreen} (more : v.MoreModels w) {pc : LoadPc}
    (backed : pc.Backed v) : pc.Backed w := by
  cases pc with
  | addSystemPrompt => exact more.some backed
  | emitLoaded => exact more.prompted backed
  | emitLoading | loadModel | getContextSize | getChatTemplate | create | ended => trivial

theorem LoadingScreen.moreModels_apply (v : LoadingScreen) (effect : Effect) :
    v.MoreModels (v.apply effect) := by
  cases effect with
  | none | emit | setModelPath | setLatch | launch | loadModel => exact ⟨id, id⟩
  | create path =>
      exact ⟨fun _ => List.cons_ne_nil _ _,
        fun ⟨model, member, prompted⟩ => ⟨model, List.mem_cons_of_mem _ member, prompted⟩⟩
  | addSystemPrompt =>
      simp only [apply]
      cases models : v.models with
      | nil => exact ⟨fun some => absurd models some, fun ⟨_, member, _⟩ => by simp [models] at member⟩
      | cons model earlier =>
          exact ⟨fun _ => List.cons_ne_nil _ _, fun _ => ⟨_, List.mem_cons_self, rfl⟩⟩

theorem backed_init : LoadingScreen.init.Backed where
  loaded := by simp [LoadingScreen.init]
  loads := by simp [LoadingScreen.init]

theorem backed_step {v next : LoadingScreen} {a : Action} (backed : v.Backed)
    (taken : v.step a = some next) : next.Backed := by
  cases a with
  | click =>
      simp only [LoadingScreen.step] at taken
      split at taken <;> cases taken
      exact ⟨backed.loaded, backed.loads⟩
  | collect =>
      cases taken
      exact ⟨backed.loaded, backed.loads⟩
  | clickStep k event =>
      obtain ⟨pc, pc', effect, at_k, steps, rfl⟩ := LoadingScreen.step_click taken
      have more := v.moreModels_apply effect
      cases steps with
      | emitLoading | emitDefault => exact ⟨by simp [LoadingScreen.apply], backed.loads⟩
      | launch =>
          refine ⟨backed.loaded, fun pc member => ?_⟩
          rcases List.mem_append.mp member with old | new
          · exact (backed.loads pc old).mono more
          · rw [List.mem_singleton.mp new]
            trivial
      | turnedAway | admitted | picked | pickThrows | assign | blank | chosen | latched
      | unlatched | setLatch => exact ⟨backed.loaded, backed.loads⟩
  | loadStep k event =>
      obtain ⟨pc, pc', effect, at_k, steps, rfl⟩ := LoadingScreen.step_load taken
      have more := v.moreModels_apply effect
      have here := backed.loads pc (List.mem_of_getElem? at_k)
      have others : pc'.Backed (v.apply effect) →
          ∀ other ∈ v.loads.set k pc', other.Backed (v.apply effect) := by
        intro moved other member
        rcases List.mem_or_eq_of_mem_set member with old | rfl
        · exact (backed.loads other old).mono more
        · exact moved
      cases steps with
      | fails _ read =>
          rcases read with rfl | rfl <;> exact ⟨backed.loaded, others trivial⟩
      | emitLoading => exact ⟨by simp [LoadingScreen.apply], others trivial⟩
      | loadModel | contextSize | chatTemplate => exact ⟨backed.loaded, others trivial⟩
      | create size template =>
          exact ⟨fun state => more.prompted (backed.loaded state),
            others (List.cons_ne_nil _ _)⟩
      | addSystemPrompt =>
          have prompted : (v.apply .addSystemPrompt).Prompted := by
            cases models : v.models with
            | nil => exact absurd models here
            | cons model earlier =>
                simp only [LoadingScreen.Prompted, LoadingScreen.apply, models]
                exact ⟨_, List.mem_cons_self, rfl⟩
          exact ⟨fun _ => prompted, others prompted⟩
      | emitLoaded => exact ⟨fun _ => here, others trivial⟩

/-! ## Something goes on as long as the state is 1 -/

structure LoadingScreen.Going (v : LoadingScreen) : Prop where
  loading : v.loadingLLMState = 1 → (∃ pc ∈ v.clicks, pc.picking = true) ∨ v.Loads
  latched : v.initLLM = true → .launch ∈ v.clicks ∨ v.Loads ∨ v.Succeeded
  shown : ¬ v.Succeeded → v.loadingLLMState ≠ 2 ∧ v.showFileDialog = true

theorem going_init : LoadingScreen.init.Going where
  loading := by simp [LoadingScreen.init]
  latched := by simp [LoadingScreen.init]
  shown := by simp [LoadingScreen.init]

theorem ClickPc.Steps.going {v : LoadingScreen} {k : Nat} {pc pc' : ClickPc} {event : ClickEvent}
    {effect : Effect} (steps : pc.Steps v event pc' effect)
    (unfailing : Unfailing v (.clickStep k event)) (at_k : v.clicks[k]? = some pc) :
    pc'.picking = true ∨ (v.apply effect).Loads ∨ (v.apply effect).loadingLLMState = 0 ∨
      pc.picking = false ∧ effect = .none := by
  cases steps with
  | turnedAway | admitted => exact Or.inr (Or.inr (Or.inr ⟨rfl, rfl⟩))
  | emitLoading | picked | assign | blank | chosen | unlatched | setLatch => exact Or.inl rfl
  | pickThrows => exact absurd rfl unfailing.1
  | emitDefault => exact Or.inr (Or.inr (Or.inl rfl))
  | latched latched => exact Or.inr (Or.inl (unfailing.2 at_k latched))
  | launch =>
      exact Or.inr (Or.inl ⟨.emitLoading, List.mem_append_right _ List.mem_cons_self, rfl⟩)

theorem LoadingScreen.Going.click {v : LoadingScreen} (going : v.Going) {k : Nat}
    {pc pc' : ClickPc} {event : ClickEvent} {effect : Effect} (at_k : v.clicks[k]? = some pc)
    (steps : pc.Steps v event pc' effect) (unfailing : Unfailing v (.clickStep k event)) :
    { v.apply effect with clicks := v.clicks.set k pc' : LoadingScreen }.Going where
  loading := by
    intro state
    rcases steps.going unfailing at_k with picking | loads | zero | ⟨before, rfl⟩
    · exact Or.inl ⟨pc', mem_set_self pc' at_k, picking⟩
    · exact Or.inr loads
    · exact absurd (zero.symm.trans state) (by simp)
    · refine (going.loading state).imp_left ?_
      rintro ⟨other, member, picking⟩
      refine ⟨other, mem_set_of_ne at_k member ?_, picking⟩
      rintro rfl
      rw [before] at picking
      cases picking
  latched := by
    intro latched
    cases steps with
    | launch => exact Or.inr (Or.inl ⟨.emitLoading, List.mem_append_right _ List.mem_cons_self, rfl⟩)
    | setLatch => exact Or.inl (mem_set_self _ at_k)
    | turnedAway | admitted | emitLoading | picked | pickThrows | assign | blank | chosen
    | emitDefault | latched | unlatched =>
        exact (going.latched latched).imp_left fun member => mem_set_of_ne at_k member (by simp)
  shown := by
    intro notYet
    cases steps with
    | emitLoading | emitDefault => exact ⟨by simp [LoadingScreen.apply], (going.shown notYet).2⟩
    | launch => exact going.shown fun member => notYet (List.mem_append_left _ member)
    | turnedAway | admitted | picked | pickThrows | assign | blank | chosen | latched | unlatched
    | setLatch => exact going.shown notYet

theorem LoadPc.Steps.going {v : LoadingScreen} {pc pc' : LoadPc} {event : LoadEvent}
    {effect : Effect} (steps : pc.Steps v event pc' effect) (works : pc.fails event = false) :
    pc.running = true ∧ (v.apply effect).initLLM = v.initLLM ∧
      (v.apply effect).showFileDialog = v.showFileDialog ∧
      ((pc'.running = true ∧ ((v.apply effect).loadingLLMState = 1 ∨
        (v.apply effect).loadingLLMState = v.loadingLLMState)) ∨
      (pc' = .ended true ∧ (v.apply effect).loadingLLMState = 2)) := by
  cases steps with
  | fails failing => exact absurd (failing.symm.trans works) (by simp)
  | emitLoading => exact ⟨rfl, rfl, rfl, Or.inl ⟨rfl, Or.inl rfl⟩⟩
  | loadModel | contextSize | chatTemplate | create | addSystemPrompt =>
      exact ⟨rfl, rfl, rfl, Or.inl ⟨rfl, Or.inr rfl⟩⟩
  | emitLoaded => exact ⟨rfl, rfl, rfl, Or.inr ⟨rfl, rfl⟩⟩

theorem LoadingScreen.Going.load {v : LoadingScreen} (going : v.Going) {k : Nat}
    {pc pc' : LoadPc} {event : LoadEvent} {effect : Effect} (at_k : v.loads[k]? = some pc)
    (steps : pc.Steps v event pc' effect) (works : pc.fails event = false) :
    { v.apply effect with loads := v.loads.set k pc' : LoadingScreen }.Going := by
  obtain ⟨running, latch, dialog, moved⟩ := steps.going works
  have here := mem_set_self pc' at_k
  have earlier : LoadPc.ended true ∈ v.loads → LoadPc.ended true ∈ v.loads.set k pc' := by
    refine fun member => mem_set_of_ne at_k member ?_
    rintro rfl
    cases running
  rcases moved with ⟨running', state⟩ | ⟨rfl, two⟩
  · refine ⟨fun _ => Or.inr ⟨pc', here, running'⟩, fun _ => Or.inr (Or.inl ⟨pc', here, running'⟩),
      fun notYet => ?_⟩
    obtain ⟨notTwo, shown⟩ := going.shown fun member => notYet (earlier member)
    refine ⟨?_, dialog.trans shown⟩
    rcases state with one | same
    · exact fun two => absurd (one.symm.trans two) (by simp)
    · exact fun two => notTwo (same.symm.trans two)
  · exact ⟨fun one => absurd (two.symm.trans one) (by simp), fun _ => Or.inr (Or.inr here),
      fun notYet => absurd here notYet⟩

theorem going_step {v next : LoadingScreen} {a : Action} (going : v.Going)
    (unfailing : Unfailing v a) (taken : v.step a = some next) : next.Going := by
  cases a with
  | click =>
      simp only [LoadingScreen.step] at taken
      split at taken <;> cases taken
      refine ⟨fun state => ?_, fun latched => ?_, going.shown⟩
      · refine (going.loading state).imp_left ?_
        rintro ⟨pc, member, picking⟩
        exact ⟨pc, List.mem_append_left _ member, picking⟩
      · exact (going.latched latched).imp_left fun member => List.mem_append_left _ member
  | collect =>
      cases taken
      refine ⟨going.loading, going.latched, fun notYet => ?_⟩
      obtain ⟨notTwo, shown⟩ := going.shown notYet
      exact ⟨notTwo, by simp [shown, notTwo]⟩
  | clickStep k event =>
      obtain ⟨pc, pc', effect, at_k, steps, rfl⟩ := LoadingScreen.step_click taken
      exact going.click at_k steps unfailing
  | loadStep k event =>
      obtain ⟨pc, pc', effect, at_k, steps, rfl⟩ := LoadingScreen.step_load taken
      exact going.load at_k steps (unfailing pc at_k)

/-! ## The next attempt -/

theorem LoadingScreen.runSteps_attempt {v : LoadingScreen} (shown : v.showFileDialog = true)
    (idle : v.loadingLLMState ≠ 1) (unlatched : v.initLLM = false) {file : KString}
    (chosen : isBlank file = false) :
    runSteps step v (v.attempt file) = some { v with
      loadingLLMState := 1
      modelPath := file
      initLLM := true
      reads := v.reads ++ [file]
      clicks := v.clicks ++ [.ended]
      loads := v.loads ++ [.getContextSize] } := by
  have last : ∀ {α : Type} (l : List α) (a : α), (l ++ [a])[l.length]? = some a := by simp
  have replace : ∀ {α : Type} (l : List α) (a b : α), (l ++ [a]).set l.length b = l ++ [b] := by
    simp
  simp only [attempt, runSteps, step, shown, if_true, last, replace, ClickPc.step, LoadPc.step, apply,
    idle, if_false, unlatched, chosen, Bool.false_eq_true, Option.map_some, Option.bind_some]

theorem LoadingScreen.Quiescent.not_loads {v : LoadingScreen} (quiescent : v.Quiescent) :
    ¬ v.Loads := by
  rintro ⟨pc, member, running⟩
  rw [quiescent.2 pc member] at running
  cases running

theorem LoadingScreen.Going.idle {v : LoadingScreen} (going : v.Going)
    (quiescent : v.Quiescent) : v.loadingLLMState ≠ 1 := by
  intro state
  rcases going.loading state with ⟨pc, member, picking⟩ | loads
  · rw [quiescent.1 pc member] at picking
    cases picking
  · exact quiescent.not_loads loads

theorem LoadingScreen.Going.unlatched {v : LoadingScreen} (going : v.Going)
    (quiescent : v.Quiescent) (notYet : ¬ v.Succeeded) : v.initLLM = false := by
  rw [Bool.eq_false_iff]
  intro latched
  rcases going.latched latched with launching | loads | succeeded
  · exact absurd (quiescent.1 _ launching) (by simp [ClickPc.picking])
  · exact quiescent.not_loads loads
  · exact notYet succeeded

theorem LoadingScreen.Going.retryable {v : LoadingScreen} (going : v.Going) (backed : v.Backed) :
    Retryable v where
  idle := going.idle
  loaded := backed.loaded
  retry := by
    intro quiescent notYet file chosen
    have shown := (going.shown notYet).2
    exact ⟨_, LoadingScreen.runSteps_attempt shown (going.idle quiescent)
      (going.unlatched quiescent notYet) chosen, rfl⟩

/-- In a run without a failing pick or load step and without a file chosen after
the load, loading can be retried in every state. -/
theorem retryable_of_unfailing {actions : List Action}
    (unfailing : StepsMeet LoadingScreen.step Unfailing .init actions) :
    Visits LoadingScreen.step Retryable .init actions := by
  have kept : Visits LoadingScreen.step (fun v => v.Going ∧ v.Backed) .init actions :=
    Machine.visits_of_stepsMeet
      (fun _ _ _ before meets taken =>
        ⟨going_step before.1 meets taken, backed_step before.2 taken⟩)
      ⟨going_init, backed_init⟩ unfailing
  exact kept.mono fun _ state => state.1.retryable state.2

/-! ## A model without a chat template -/

def clicked (k : Nat) (path : KString) : List Action :=
  [.click, .clickStep k .run, .clickStep k .run, .clickStep k (.picked path), .clickStep k .run,
    .clickStep k .run]

def launched (k : Nat) : List Action := List.replicate 3 (.clickStep k .run)

def created (chatTemplate : Option KString) : List Action :=
  [.loadStep 0 .run, .loadStep 0 .run, .loadStep 0 (.contextSize (some 2048)),
    .loadStep 0 (.chatTemplate chatTemplate), .loadStep 0 .run]

/-- A pick that is cancelled, then one whose file is loaded. -/
def cancelledThenLoaded : List Action :=
  clicked 0 [] ++ [.clickStep 0 .run] ++ clicked 1 (kstring "b.gguf") ++ launched 1 ++
    created (some (kstring "chatml")) ++ [.loadStep 0 .run, .loadStep 0 .run, .collect]

theorem retryable_of_unfailing_cancelled :
    Visits LoadingScreen.step Retryable .init cancelledThenLoaded :=
  retryable_of_unfailing (by decide +kernel)

/-- The load ends with the state at 1 and the latch set. -/
theorem not_retryable_untemplated :
    (runSteps LoadingScreen.step .init
        (clicked 0 (kstring "a.gguf") ++ launched 0 ++ created none)).map
        (fun v => (v.loadingLLMState, v.initLLM, v.clicks, v.loads)) =
      some (1, true, [.ended], [.ended false]) ∧
    ¬ Visits LoadingScreen.step Retryable .init
      (clicked 0 (kstring "a.gguf") ++ launched 0 ++ created none) := by
  have run : (runSteps LoadingScreen.step .init
      (clicked 0 (kstring "a.gguf") ++ launched 0 ++ created none)).map
      (fun v => (v.loadingLLMState, v.initLLM, v.clicks, v.loads)) =
      some (1, true, [.ended], [.ended false]) := by decide +kernel
  refine ⟨run, fun visits => ?_⟩
  obtain ⟨last, reached, members⟩ := Option.map_eq_some_iff.mp run
  obtain ⟨state, _, clicks, loads⟩ :
      last.loadingLLMState = 1 ∧ last.initLLM = true ∧ last.clicks = [.ended] ∧
        last.loads = [.ended false] := by simpa using members
  have quiescent : last.Quiescent := by
    refine ⟨?_, ?_⟩
    · rw [clicks]
      simp [ClickPc.picking]
    · rw [loads]
      simp [LoadPc.running]
  exact (visits.finish reached).idle quiescent state

end MineGPT.Ui.Loading
