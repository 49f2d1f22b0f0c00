import MineGPT.Lib.Machine

/-!
# `ChatViewModel`

The chat screen's state and the coroutines that work on it.  `sendMessage` and
`stopGeneration` run on the main thread; every sent message launches a job on
`Dispatchers.Default` that collects `getResponse` and types each chunk into the
last entry of the message list, one character at a time.

A job is a program counter: each native call, each read of `isGenerating` or of
`lastIndex`, each list write and each `delay` is one step.  A stopped job ends
at the next `emit` or `delay`.  A job that was stopped before it started may be
dropped by the dispatcher or start all the same.
-/

set_option autoImplicit false

namespace MineGPT.Ui

/-- A Kotlin string: UTF-16 code units. -/
abbrev KString := List UInt16

def kstring (s : String) : KString := s.toList.map fun c => UInt16.ofNat c.toNat

def endMarker : KString := kstring "[EOG]"

def isWhitespace (c : UInt16) : Bool :=
  (0x0009 ≤ c && c ≤ 0x000D) || (0x001C ≤ c && c ≤ 0x0020) || c == 0x00A0 || c == 0x1680 ||
    (0x2000 ≤ c && c ≤ 0x200A) || c == 0x2028 || c == 0x2029 || c == 0x202F || c == 0x205F ||
    c == 0x3000

def isBlank (message : KString) : Bool := message.all isWhitespace

structure ChatMessage where
  message : KString
  isUser : Bool
  deriving DecidableEq, Repr

/-! ## Jobs -/

inductive JobEnd where
  | completed
  | cancelled
  | threw
  deriving DecidableEq, Repr

/-- Where a job stands: before the step the constructor names. -/
inductive JobPc where
  | launched
  | completionLoop
  | emit (chunk : KString)
  /-- `if (!isGenerating.value) break`, for the index `i` of the chunk -/
  | check (chunk : KString) (i : Nat)
  | lastIndex (chunk : KString) (i : Nat)
  | write (chunk : KString) (i index : Nat)
  | delay (chunk : KString) (i : Nat)
  | stopCompletion
  | clearFlag
  | ended (how : JobEnd)
  deriving DecidableEq, Repr

structure Job where
  query : KString
  responseContent : KString
  pc : JobPc
  cancelled : Bool
  deriving DecidableEq, Repr

inductive NativeCall where
  | startCompletion
  | completionLoop
  | stopCompletion
  deriving DecidableEq, Repr

inductive JobEvent where
  | run
  /-- The native `completionLoop` returns this string. -/
  | returns (text : KString)
  | throws
  /-- The dispatcher finds the job cancelled before it started. -/
  | dropped
  deriving DecidableEq, Repr

inductive Effect where
  | none
  | native (call : NativeCall)
  | write (index : Nat) (text : KString)
  | clearFlag
  deriving DecidableEq, Repr

namespace Job

def moveTo (job : Job) (pc : JobPc) : Job := { job with pc := pc }

/-- `responseContent.take(responseContent.length - (appendContent.length - i))` -/
def typed (job : Job) (chunk : KString) (i : Nat) : KString :=
  job.responseContent.take (job.responseContent.length - (chunk.length - i))

/-- One step of a job that reads these values of `isGenerating` and
`lastIndex`; `none` when the event is not possible there. -/
def step (isGenerating : Bool) (lastIndex : Nat) (job : Job) : JobEvent → Option (Job × Effect)
  | .run =>
    match job.pc with
    | .launched => some (job.moveTo .completionLoop, .native .startCompletion)
    | .completionLoop => none
    | .emit chunk =>
      if job.cancelled then some (job.moveTo (.ended .cancelled), .none)
      else
        some ({ job with
          responseContent := job.responseContent ++ chunk, pc := .check chunk 0 }, .none)
    | .check chunk i =>
      if i < chunk.length ∧ isGenerating then some (job.moveTo (.lastIndex chunk i), .none)
      else some (job.moveTo .completionLoop, .none)
    | .lastIndex chunk i => some (job.moveTo (.write chunk i lastIndex), .none)
    | .write chunk i index =>
      some (job.moveTo (.delay chunk i), .write index (job.typed chunk i))
    | .delay chunk i =>
      if job.cancelled then some (job.moveTo (.ended .cancelled), .none)
      else some (job.moveTo (.check chunk (i + 1)), .none)
    | .stopCompletion => some (job.moveTo .clearFlag, .native .stopCompletion)
    | .clearFlag => some (job.moveTo (.ended .completed), .clearFlag)
    | .ended _ => none
  | .returns text =>
    match job.pc with
    | .completionLoop =>
      some (job.moveTo (if text = endMarker then .stopCompletion else .emit text),
        .native .completionLoop)
    | _ => none
  | .throws =>
    match job.pc with
    | .launched => some (job.moveTo (.ended .threw), .native .startCompletion)
    | .completionLoop => some (job.moveTo (.ended .threw), .native .completionLoop)
    | .stopCompletion => some (job.moveTo (.ended .threw), .native .stopCompletion)
    | _ => none
  | .dropped =>
    match job.pc with
    | .launched =>
      if job.cancelled then some (job.moveTo (.ended .cancelled), .none) else none
    | _ => none

def isEnded (job : Job) : Bool :=
  match job.pc with
  | .ended _ => true
  | _ => false

def isLive (job : Job) : Bool := !job.isEnded && !job.cancelled

end Job

/-! ## The view model -/

structure BubbleWrite where
  job : Nat
  index : Nat
  text : KString
  deriving DecidableEq, Repr

/-- The state of the screen, the jobs launched so far, and a record of the
native calls and list writes the jobs made. -/
structure ChatViewModel where
  currentChatMessages : List ChatMessage
  isGenerating : Bool
  responseGenerationJob : Option Nat
  jobs : List Job
  nativeCalls : List (Nat × NativeCall)
  bubbleWrites : List BubbleWrite
  deriving DecidableEq, Repr

namespace ChatViewModel

def init : ChatViewModel :=
  { currentChatMessages := [], isGenerating := false, responseGenerationJob := none
    jobs := [], nativeCalls := [], bubbleWrites := [] }

def lastIndex (v : ChatViewModel) : Nat := v.currentChatMessages.length - 1

def setFlag (value : Bool) (v : ChatViewModel) : ChatViewModel := { v with isGenerating := value }

def addMessage (entry : ChatMessage) (v : ChatViewModel) : ChatViewModel :=
  { v with currentChatMessages := v.currentChatMessages ++ [entry] }

/-- `responseGenerationJob?.cancel()` -/
def cancelJob (v : ChatViewModel) : ChatViewModel :=
  match v.responseGenerationJob with
  | none => v
  | some k => { v with jobs := v.jobs.modify k fun job => { job with cancelled := true } }

def stopGeneration (v : ChatViewModel) : ChatViewModel := (v.setFlag false).cancelJob

def getTalkerResponse (query : KString) (v : ChatViewModel) : ChatViewModel :=
  { v with
    jobs := v.jobs ++
      [{ query := query, responseContent := [], pc := .launched, cancelled := false }]
    responseGenerationJob := some v.jobs.length }

def sendMessage (message : KString) (v : ChatViewModel) : ChatViewModel :=
  let v := if v.isGenerating then v.stopGeneration else v
  if isBlank message then v
  else
    (((v.addMessage { message := message, isUser := true }).addMessage
      { message := [], isUser := false }).setFlag true).getTalkerResponse message

def afterJob (k : Nat) (job : Job) (effect : Effect) (v : ChatViewModel) : ChatViewModel :=
  let v := { v with jobs := v.jobs.set k job }
  match effect with
  | .none => v
  | .native call => { v with nativeCalls := v.nativeCalls ++ [(k, call)] }
  | .write index text =>
    { v with
      currentChatMessages := v.currentChatMessages.set index { message := text, isUser := false }
      bubbleWrites := v.bubbleWrites ++ [{ job := k, index := index, text := text }] }
  | .clearFlag => v.setFlag false

def stepJob (v : ChatViewModel) (k : Nat) (event : JobEvent) : Option ChatViewModel :=
  match v.jobs[k]? with
  | none => none
  | some job =>
    (job.step v.isGenerating v.lastIndex event).map fun (job', effect) =>
      v.afterJob k job' effect

end ChatViewModel

/-! ## What a step changes -/

inductive Job.Steps (isGenerating : Bool) (lastIndex : Nat) (job : Job) :
    JobEvent → Job → Effect → Prop where
  | start (pc : job.pc = .launched) :
    Steps isGenerating lastIndex job .run (job.moveTo .completionLoop)
      (.native .startCompletion)
  | startThrows (pc : job.pc = .launched) :
    Steps isGenerating lastIndex job .throws (job.moveTo (.ended .threw))
      (.native .startCompletion)
  | dropped (pc : job.pc = .launched) (stopped : job.cancelled = true) :
    Steps isGenerating lastIndex job .dropped (job.moveTo (.ended .cancelled)) .none
  | sample (text : KString) (pc : job.pc = .completionLoop) (goesOn : text ≠ endMarker) :
    Steps isGenerating lastIndex job (.returns text) (job.moveTo (.emit text))
      (.native .completionLoop)
  | sampleEnd (pc : job.pc = .completionLoop) :
    Steps isGenerating lastIndex job (.returns endMarker) (job.moveTo .stopCompletion)
      (.native .completionLoop)
  | sampleThrows (pc : job.pc = .completionLoop) :
    Steps isGenerating lastIndex job .throws (job.moveTo (.ended .threw))
      (.native .completionLoop)
  | emit (chunk : KString) (pc : job.pc = .emit chunk) (active : job.cancelled = false) :
    Steps isGenerating lastIndex job .run
      { job with responseContent := job.responseContent ++ chunk, pc := .check chunk 0 } .none
  | emitCancelled (chunk : KString) (pc : job.pc = .emit chunk)
      (stopped : job.cancelled = true) :
    Steps isGenerating lastIndex job .run (job.moveTo (.ended .cancelled)) .none
  | checked (chunk : KString) (i : Nat) (pc : job.pc = .check chunk i)
      (inside : i < chunk.length) (generating : isGenerating = true) :
    Steps isGenerating lastIndex job .run (job.moveTo (.lastIndex chunk i)) .none
  | typedOut (chunk : KString) (i : Nat) (pc : job.pc = .check chunk i)
      (leaves : ¬ (i < chunk.length ∧ isGenerating = true)) :
    Steps isGenerating lastIndex job .run (job.moveTo .completionLoop) .none
  | readIndex (chunk : KString) (i : Nat) (pc : job.pc = .lastIndex chunk i) :
    Steps isGenerating lastIndex job .run (job.moveTo (.write chunk i lastIndex)) .none
  | write (chunk : KString) (i index : Nat) (pc : job.pc = .write chunk i index) :
    Steps isGenerating lastIndex job .run (job.moveTo (.delay chunk i))
      (.write index (job.typed chunk i))
  | delay (chunk : KString) (i : Nat) (pc : job.pc = .delay chunk i)
      (active : job.cancelled = false) :
    Steps isGenerating lastIndex job .run (job.moveTo (.check chunk (i + 1))) .none
  | delayCancelled (chunk : KString) (i : Nat) (pc : job.pc = .delay chunk i)
      (stopped : job.cancelled = true) :
    Steps isGenerating lastIndex job .run (job.moveTo (.ended .cancelled)) .none
  | stop (pc : job.pc = .stopCompletion) :
    Steps isGenerating lastIndex job .run (job.moveTo .clearFlag) (.native .stopCompletion)
  | stopThrows (pc : job.pc = .stopCompletion) :
    Steps isGenerating lastIndex job .throws (job.moveTo (.ended .threw))
      (.native .stopCompletion)
  | clearFlag (pc : job.pc = .clearFlag) :
    Steps isGenerating lastIndex job .run (job.moveTo (.ended .completed)) .clearFlag

theorem Job.steps_of_step {flag : Bool} {lastIndex : Nat} {job job' : Job} {event : JobEvent}
    {effect : Effect} (taken : job.step flag lastIndex event = some (job', effect)) :
    job.Steps flag lastIndex event job' effect := by
  cases event with
  | run =>
      cases pc : job.pc with
      | launched =>
          simp only [step, pc, Option.some.injEq, Prod.mk.injEq] at taken
          obtain ⟨rfl, rfl⟩ := taken
          exact .start pc
      | completionLoop => simp [step, pc] at taken
      | emit chunk =>
          simp only [step, pc] at taken
          split at taken <;> rename_i stopped <;>
            simp only [Option.some.injEq, Prod.mk.injEq] at taken <;>
            obtain ⟨rfl, rfl⟩ := taken
          · exact .emitCancelled chunk pc stopped
          · exact .emit chunk pc (Bool.eq_false_iff.mpr stopped)
      | check chunk i =>
          by_cases goesOn : i < chunk.length ∧ flag = true <;>
            simp only [step, pc, goesOn, and_self, if_true, if_false, Option.some.injEq,
              Prod.mk.injEq] at taken <;>
            obtain ⟨rfl, rfl⟩ := taken
          · exact .checked chunk i pc goesOn.1 goesOn.2
          · exact .typedOut chunk i pc goesOn
      | lastIndex chunk i =>
          simp only [step, pc, Option.some.injEq, Prod.mk.injEq] at taken
          obtain ⟨rfl, rfl⟩ := taken
          exact .readIndex chunk i pc
      | write chunk i index =>
          simp only [step, pc, Option.some.injEq, Prod.mk.injEq] at taken
          obtain ⟨rfl, rfl⟩ := taken
          exact .write chunk i index pc
      | delay chunk i =>
          simp only [step, pc] at taken
          split at taken <;> rename_i stopped <;>
            simp only [Option.some.injEq, Prod.mk.injEq] at taken <;>
            obtain ⟨rfl, rfl⟩ := taken
          · exact .delayCancelled chunk i pc stopped
          · exact .delay chunk i pc (Bool.eq_false_iff.mpr stopped)
      | stopCompletion =>
          simp only [step, pc, Option.some.injEq, Prod.mk.injEq] at taken
          obtain ⟨rfl, rfl⟩ := taken
          exact .stop pc
      | clearFlag =>
          simp only [step, pc, Option.some.injEq, Prod.mk.injEq] at taken
          obtain ⟨rfl, rfl⟩ := taken
          exact .clearFlag pc
      | ended how => simp [step, pc] at taken
  | returns text =>
      cases pc : job.pc <;> simp only [step, pc, reduceCtorEq] at taken
      by_cases marker : text = endMarker <;>
        simp only [marker, if_true, if_false, Option.some.injEq, Prod.mk.injEq] at taken <;>
        obtain ⟨rfl, rfl⟩ := taken
      · rw [marker]
        exact .sampleEnd pc
      · exact .sample text pc marker
  | throws =>
      cases pc : job.pc <;>
        simp only [step, pc, Option.some.injEq, Prod.mk.injEq, reduceCtorEq] at taken <;>
        obtain ⟨rfl, rfl⟩ := taken
      · exact .startThrows pc
      · exact .sampleThrows pc
      · exact .stopThrows pc
  | dropped =>
      cases pc : job.pc <;> simp only [step, pc, reduceCtorEq] at taken
      cases stopped : job.cancelled <;>
        simp only [stopped, Bool.false_eq_true, if_true, if_false, Option.some.injEq,
          Prod.mk.injEq, reduceCtorEq] at taken
      obtain ⟨rfl, rfl⟩ := taken
      exact .dropped pc stopped

def Effect.nativeCalls (k : Nat) : Effect → List (Nat × NativeCall)
  | .native call => [(k, call)]
  | _ => []

def Effect.bubbleWrites (k : Nat) : Effect → List BubbleWrite
  | .write index text => [{ job := k, index := index, text := text }]
  | _ => []

namespace ChatViewModel

@[simp] theorem afterJob_jobs (k : Nat) (job : Job) (effect : Effect) (v : ChatViewModel) :
    (v.afterJob k job effect).jobs = v.jobs.set k job := by
  cases effect <;> rfl

@[simp] theorem afterJob_nativeCalls (k : Nat) (job : Job) (effect : Effect)
    (v : ChatViewModel) :
    (v.afterJob k job effect).nativeCalls = v.nativeCalls ++ effect.nativeCalls k := by
  cases effect <;> simp [afterJob, Effect.nativeCalls, setFlag]

@[simp] theorem afterJob_bubbleWrites (k : Nat) (job : Job) (effect : Effect)
    (v : ChatViewModel) :
    (v.afterJob k job effect).bubbleWrites = v.bubbleWrites ++ effect.bubbleWrites k := by
  cases effect <;> simp [afterJob, Effect.bubbleWrites, setFlag]

@[simp] theorem afterJob_responseGenerationJob (k : Nat) (job : Job) (effect : Effect)
    (v : ChatViewModel) :
    (v.afterJob k job effect).responseGenerationJob = v.responseGenerationJob := by
  cases effect <;> rfl

theorem afterJob_isGenerating (k : Nat) (job : Job) (effect : Effect) (v : ChatViewModel) :
    (v.afterJob k job effect).isGenerating =
      if effect = .clearFlag then false else v.isGenerating := by
  cases effect <;> simp [afterJob, setFlag]

theorem stepJob_cases {v w : ChatViewModel} {k : Nat} {event : JobEvent}
    (taken : v.stepJob k event = some w) :
    ∃ job job' effect, v.jobs[k]? = some job ∧
      job.Steps v.isGenerating v.lastIndex event job' effect ∧
      w = v.afterJob k job' effect := by
  simp only [stepJob] at taken
  cases found : v.jobs[k]? with
  | none => simp [found] at taken
  | some job =>
      simp only [found, Option.map_eq_some_iff, Prod.exists] at taken
      obtain ⟨job', effect, stepped, rfl⟩ := taken
      exact ⟨job, job', effect, rfl, Job.steps_of_step stepped, rfl⟩

@[simp] theorem addMessage_jobs (entry : ChatMessage) (v : ChatViewModel) :
    (v.addMessage entry).jobs = v.jobs := rfl

@[simp] theorem setFlag_jobs (value : Bool) (v : ChatViewModel) :
    (v.setFlag value).jobs = v.jobs := rfl

@[simp] theorem cancelJob_nativeCalls (v : ChatViewModel) :
    v.cancelJob.nativeCalls = v.nativeCalls := by
  unfold cancelJob
  split <;> rfl

@[simp] theorem cancelJob_bubbleWrites (v : ChatViewModel) :
    v.cancelJob.bubbleWrites = v.bubbleWrites := by
  unfold cancelJob
  split <;> rfl

@[simp] theorem cancelJob_currentChatMessages (v : ChatViewModel) :
    v.cancelJob.currentChatMessages = v.currentChatMessages := by
  unfold cancelJob
  split <;> rfl

@[simp] theorem cancelJob_isGenerating (v : ChatViewModel) :
    v.cancelJob.isGenerating = v.isGenerating := by
  unfold cancelJob
  split <;> rfl

theorem cancelJob_getElem? (v : ChatViewModel) (k : Nat) :
    v.cancelJob.jobs[k]? = v.jobs[k]?.map fun job =>
      if v.responseGenerationJob = some k then { job with cancelled := true } else job := by
  unfold cancelJob
  cases v.responseGenerationJob with
  | none => simp
  | some current =>
      simp only [List.getElem?_modify, Option.some.injEq]
      split <;> simp

@[simp] theorem cancelJob_jobs_length (v : ChatViewModel) :
    v.cancelJob.jobs.length = v.jobs.length := by
  unfold cancelJob
  split <;> simp

theorem sendMessage_keeps {P : ChatViewModel → Prop} {v : ChatViewModel} (message : KString)
    (start : P v) (stop : P v.stopGeneration)
    (ask : ∀ u : ChatViewModel, P u →
      P ((((u.addMessage { message := message, isUser := true }).addMessage
        { message := [], isUser := false }).setFlag true).getTalkerResponse message)) :
    P (v.sendMessage message) := by
  have stopped : P (if v.isGenerating then v.stopGeneration else v) := by
    split
    · exact stop
    · exact start
  simp only [sendMessage]
  split
  · exact stopped
  · exact ask _ stopped

end ChatViewModel

/-! ## Interleavings

In the coarse machine the bodies of `sendMessage` and `stopGeneration` are one
step each. -/

inductive Action where
  | sendMessage (message : KString)
  | stopGeneration
  | job (k : Nat) (event : JobEvent)
  deriving DecidableEq, Repr

def step (v : ChatViewModel) : Action → Option ChatViewModel
  | .sendMessage message => some (v.sendMessage message)
  | .stopGeneration => some v.stopGeneration
  | .job k event => v.stepJob k event

/-- Where the main thread stands: before the step the constructor names.  A
`next` message is sent on after a stop; without one the stop was asked for
itself. -/
inductive MainPc where
  | idle
  | readFlag (message : KString)
  | clearFlag (next : Option KString)
  | cancelJob (next : Option KString)
  | addUser (message : KString)
  | addBubble (message : KString)
  | setFlag (message : KString)
  | launch (message : KString)
  deriving DecidableEq, Repr

structure FineState where
  view : ChatViewModel
  main : MainPc
  deriving DecidableEq, Repr

inductive FineAction where
  | callSendMessage (message : KString)
  | callStopGeneration
  | main
  | job (k : Nat) (event : JobEvent)
  deriving DecidableEq, Repr

/-- One step of the main thread inside `sendMessage` or `stopGeneration`. -/
def mainStep (v : ChatViewModel) : MainPc → Option FineState
  | .idle => none
  | .readFlag message =>
    some { view := v, main := if v.isGenerating then .clearFlag (some message)
      else .addUser message }
  | .clearFlag next => some { view := v.setFlag false, main := .cancelJob next }
  | .cancelJob next =>
    some { view := v.cancelJob, main := match next with
      | none => .idle
      | some message => .addUser message }
  | .addUser message =>
    if isBlank message then some { view := v, main := .idle }
    else
      some { view := v.addMessage { message := message, isUser := true }
             main := .addBubble message }
  | .addBubble message =>
    some { view := v.addMessage { message := [], isUser := false }, main := .setFlag message }
  | .setFlag message => some { view := v.setFlag true, main := .launch message }
  | .launch message => some { view := v.getTalkerResponse message, main := .idle }

def fineStep (s : FineState) : FineAction → Option FineState
  | .callSendMessage message =>
    if s.main = .idle then some { s with main := .readFlag message } else none
  | .callStopGeneration =>
    if s.main = .idle then some { s with main := .clearFlag none } else none
  | .main => mainStep s.view s.main
  | .job k event => (s.view.stepJob k event).map fun view => { s with view := view }

inductive FineSteps (s : FineState) : FineAction → FineState → Prop where
  | callSendMessage (message : KString) (idle : s.main = .idle) :
    FineSteps s (.callSendMessage message) { s with main := .readFlag message }
  | callStopGeneration (idle : s.main = .idle) :
    FineSteps s .callStopGeneration { s with main := .clearFlag none }
  | main {t : FineState} (taken : mainStep s.view s.main = some t) : FineSteps s .main t
  | job (k : Nat) (event : JobEvent) {view : ChatViewModel}
      (taken : s.view.stepJob k event = some view) :
    FineSteps s (.job k event) { s with view := view }

theorem fineSteps_of_fineStep {s t : FineState} {a : FineAction} (taken : fineStep s a = some t) :
    FineSteps s a t := by
  cases a with
  | callSendMessage message =>
      simp only [fineStep] at taken
      split at taken <;> cases taken
      exact .callSendMessage message ‹_›
  | callStopGeneration =>
      simp only [fineStep] at taken
      split at taken <;> cases taken
      exact .callStopGeneration ‹_›
  | main => exact .main taken
  | job k event =>
      obtain ⟨view, stepped, rfl⟩ := Option.map_eq_some_iff.mp taken
      exact .job k event stepped

/-! ## The two machines agree -/

open MineGPT.Lib.Machine

theorem fineRun_sendMessage (message : KString) (v : ChatViewModel) :
    ∃ actions, runSteps fineStep { view := v, main := .idle } actions =
      some { view := v.sendMessage message, main := .idle } := by
  have fromAddUser : ∀ w : ChatViewModel, ∃ actions,
      runSteps fineStep { view := w, main := .addUser message } actions =
        some { view := (if isBlank message then w
          else (((w.addMessage { message := message, isUser := true }).addMessage
            { message := [], isUser := false }).setFlag true).getTalkerResponse message)
               main := .idle } := by
    intro w
    cases blank : isBlank message with
    | true => exact ⟨[.main], by simp [runSteps, fineStep, mainStep, blank]⟩
    | false =>
        exact ⟨[.main, .main, .main, .main], by simp [runSteps, fineStep, mainStep, blank]⟩
  cases generating : v.isGenerating with
  | true =>
      obtain ⟨actions, run⟩ := fromAddUser v.stopGeneration
      refine ⟨[.callSendMessage message, .main, .main, .main] ++ actions, ?_⟩
      rw [runSteps_append]
      simp only [runSteps, fineStep, mainStep, generating, ChatViewModel.sendMessage, if_true,
        Option.bind_some]
      exact run
  | false =>
      obtain ⟨actions, run⟩ := fromAddUser v
      refine ⟨[.callSendMessage message, .main] ++ actions, ?_⟩
      rw [runSteps_append]
      simp only [runSteps, fineStep, mainStep, generating, ChatViewModel.sendMessage, if_true,
        Bool.false_eq_true, if_false, Option.bind_some]
      exact run

theorem fineRun_stopGeneration (v : ChatViewModel) :
    runSteps fineStep { view := v, main := .idle } [.callStopGeneration, .main, .main] =
      some { view := v.stopGeneration, main := .idle } := rfl

/-- Every state of a run with atomic bodies is reached step by step as well. -/
theorem fineRun_of_run {actions : List Action} {v w : ChatViewModel}
    (run : runSteps step v actions = some w) :
    ∃ fineActions, runSteps fineStep { view := v, main := .idle } fineActions =
      some { view := w, main := .idle } := by
  refine @runSteps_of_simulation _ _ step _ _ fineStep
    (fun v => { view := v, main := .idle }) (fun _ => True) ?_ actions v w trivial run
  intro s a s' _ taken
  refine ⟨trivial, ?_⟩
  cases a with
  | sendMessage message =>
      cases taken
      exact fineRun_sendMessage message s
  | stopGeneration =>
      cases taken
      exact ⟨_, fineRun_stopGeneration s⟩
  | job k event =>
      have jobStep : s.stepJob k event = some s' := taken
      exact ⟨[.job k event], by simp [runSteps, fineStep, jobStep]⟩

end MineGPT.Ui
