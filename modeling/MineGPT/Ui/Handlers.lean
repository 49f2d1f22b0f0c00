import MineGPT.Ui.Bubbles

/-!
# The handlers of `getTalkerResponse`

`getTalkerResponse` calls `onCancelled` and `onError` in the `getOrElse` of a
`runCatching` whose block launches the job.  The launch returns before the job
has run, so the block has succeeded whatever becomes of the job, and an exception
that leaves the job goes to the scope.

The machine takes the steps of the screen and keeps the books: what the jobs
raised, which of them were stopped before their end, which handlers were called
and what reached the scope.
-/

set_option autoImplicit false

namespace MineGPT.Ui

open MineGPT.Lib.Machine MineGPT.Lib.Components

/-! ## How a job ends -/

theorem Job.Steps.ends {flag : Bool} {lastIndex : Nat} {job job' : Job} {event : JobEvent}
    {effect : Effect} (taken : job.Steps flag lastIndex event job' effect) :
    job.isEnded = false ∧ job'.cancelled = job.cancelled ∧
      (job'.pc = .ended .threw ↔ event = .throws) ∧
      (job'.pc = .ended .cancelled → job.cancelled = true) := by
  cases taken with
  | dropped pc stopped | emitCancelled chunk pc stopped | delayCancelled chunk i pc stopped =>
      exact ⟨by simp [Job.isEnded, pc], rfl, by simp [Job.moveTo], fun _ => stopped⟩
  | start pc | startThrows pc | sample text pc | sampleEnd pc | sampleThrows pc | emit chunk pc
  | checked chunk i pc | typedOut chunk i pc | readIndex chunk i pc | write chunk i index pc
  | delay chunk i pc | stop pc | stopThrows pc | clearFlag pc =>
      exact ⟨by simp [Job.isEnded, pc], rfl, by simp [Job.moveTo], by simp [Job.moveTo]⟩

namespace Handlers

structure Throwable where
  message : KString
  /-- `exception is CancellationException` -/
  isCancellation : Bool
  deriving DecidableEq, Repr

inductive HandlerCall where
  | onCancelled
  | onError (exception : Throwable)
  deriving DecidableEq, Repr

def launch (query : KString) (v : ChatViewModel) : Except Throwable ChatViewModel :=
  .ok (v.getTalkerResponse query)

def getTalkerResponse (query : KString) (v : ChatViewModel) : ChatViewModel × List HandlerCall :=
  match launch query v with
  | .ok launched => (launched, [])
  | .error exception =>
    (v, [if exception.isCancellation then .onCancelled else .onError exception])

@[simp] theorem getTalkerResponse_eq (query : KString) (v : ChatViewModel) :
    getTalkerResponse query v = (v.getTalkerResponse query, []) := rfl

structure State where
  fine : FineState
  raised : List (Nat × Throwable)
  stopped : List Nat
  handled : List (Nat × HandlerCall)
  uncaught : List (Nat × Throwable)
  deriving DecidableEq, Repr

inductive Action where
  | fine (a : FineAction)
  /-- The native call of job `k` throws this exception. -/
  | raises (k : Nat) (exception : Throwable)
  deriving DecidableEq, Repr

/-- The job that the step cancels, if it has not ended. -/
def stoppedBy (s : FineState) : FineAction → List Nat
  | .main =>
    match s.main with
    | .cancelJob _ =>
      (s.view.responseGenerationJob.filter fun k =>
        s.view.jobs[k]?.any fun job => !job.isEnded).toList
    | _ => []
  | _ => []

def handledBy (s : FineState) : FineAction → List (Nat × HandlerCall)
  | .main =>
    match s.main with
    | .launch message =>
      (getTalkerResponse message s.view).2.map fun call => (s.view.jobs.length, call)
    | _ => []
  | _ => []

/-- A coroutine that ends with a `CancellationException` counts as cancelled; any
other exception is handed to the scope's handler. -/
def uncaughtBy (k : Nat) (exception : Throwable) : List (Nat × Throwable) :=
  if exception.isCancellation then [] else [(k, exception)]

def step (s : State) : Action → Option State
  | .fine (.job _ .throws) => none
  | .fine a =>
    (fineStep s.fine a).map fun fine =>
      { s with
        fine := fine
        stopped := s.stopped ++ stoppedBy s.fine a
        handled := s.handled ++ handledBy s.fine a }
  | .raises k exception =>
    (fineStep s.fine (.job k .throws)).map fun fine =>
      { s with
        fine := fine
        raised := s.raised ++ [(k, exception)]
        uncaught := s.uncaught ++ uncaughtBy k exception }

def State.init : State :=
  { fine := FineState.init, raised := [], stopped := [], handled := [], uncaught := [] }

/-! ## The law -/

/-- What the handlers of turn `k` should have been told when its job has ended. -/
def owed (s : State) (k : Nat) : JobEnd → List HandlerCall
  | .threw => (s.raised.lookup k).toList.map .onError
  | .cancelled => [.onCancelled]
  | .completed => if k ∈ s.stopped then [.onCancelled] else []

structure Served (s : State) (k : Nat) (how : JobEnd) : Prop where
  handled : (s.handled.filter fun entry => entry.1 = k).map Prod.snd = owed s k how
  caught : ∀ exception, (k, exception) ∉ s.uncaught

/-- The condition on a step: no exception is raised in job `k`, and it is not
stopped before its end. -/
def Undisturbed (k : Nat) (s : State) : Action → Prop
  | .fine a => k ∉ stoppedBy s.fine a
  | .raises j _ => j ≠ k

instance (k : Nat) (s : State) : (a : Action) → Decidable (Undisturbed k s a)
  | .fine _ => inferInstanceAs (Decidable (_ ∉ _))
  | .raises _ _ => inferInstanceAs (Decidable (_ ≠ _))

/-- The books are kept beside the steps of the screen. -/
def erase : Action → FineAction
  | .fine a => a
  | .raises k _ => .job k .throws

theorem step_fineAction {s t : State} {a : FineAction} (taken : step s (.fine a) = some t) :
    (∀ k, a ≠ .job k .throws) ∧ ∃ fine, fineStep s.fine a = some fine ∧
      { s with
        fine := fine
        stopped := s.stopped ++ stoppedBy s.fine a
        handled := s.handled ++ handledBy s.fine a } = t := by
  unfold step at taken
  split at taken
  · cases taken
  · rename_i other same
    cases same
    exact ⟨other, Option.map_eq_some_iff.mp taken⟩
  · rename_i same
    cases same

theorem step_fine {s t : State} {a : Action} (taken : step s a = some t) :
    fineStep s.fine (erase a) = some t.fine := by
  cases a with
  | raises k exception =>
      obtain ⟨fine, stepped, rfl⟩ := Option.map_eq_some_iff.mp taken
      exact stepped
  | fine a =>
      obtain ⟨_, fine, stepped, rfl⟩ := step_fineAction taken
      exact stepped

theorem fineRun_of_run : ∀ {actions : List Action} {s t : State},
    runSteps step s actions = some t →
    runSteps fineStep s.fine (actions.map erase) = some t.fine := by
  intro actions
  induction actions with
  | nil =>
      intro s t run
      obtain rfl := Option.some.inj run
      rfl
  | cons a rest ih =>
      intro s t run
      obtain ⟨next, taken, later⟩ := Option.bind_eq_some_iff.mp run
      simp only [List.map_cons, runSteps, step_fine taken, Option.bind_some]
      exact ih later

/-! ## The books -/

/-- The books tell how job `k` ended. -/
structure JobRecorded (raised : List (Nat × Throwable)) (stopped : List Nat) (k : Nat)
    (job : Job) : Prop where
  threw : (∃ exception, (k, exception) ∈ raised) ↔ job.pc = .ended .threw
  cancelled : job.cancelled = true → job.isEnded = false → k ∈ stopped
  dropped : job.pc = .ended .cancelled → k ∈ stopped

structure Recorded (s : State) : Prop where
  handled : s.handled = []
  uncaught : s.uncaught ⊆ s.raised
  jobs : ∀ k job, s.fine.view.jobs[k]? = some job → JobRecorded s.raised s.stopped k job
  launched : ∀ entry ∈ s.raised, entry.1 < s.fine.view.jobs.length

theorem recorded_init : Recorded State.init where
  handled := rfl
  uncaught := List.Subset.refl _
  jobs := by simp [State.init, FineState.init, ChatViewModel.init]
  launched := by simp [State.init]

theorem JobRecorded.more {raised : List (Nat × Throwable)} {stopped : List Nat} {k : Nat}
    {job : Job} (recorded : JobRecorded raised stopped k job)
    {raised' : List (Nat × Throwable)} (others : ∀ entry ∈ raised', entry.1 ≠ k)
    (stopped' : List Nat) :
    JobRecorded (raised ++ raised') (stopped ++ stopped') k job where
  threw := by
    rw [← recorded.threw]
    refine exists_congr fun exception => ?_
    rw [List.mem_append, or_iff_left fun member => others _ member rfl]
  cancelled := fun marked running => List.mem_append_left _ (recorded.cancelled marked running)
  dropped := fun ended => List.mem_append_left _ (recorded.dropped ended)

theorem JobRecorded.step {raised : List (Nat × Throwable)} {stopped : List Nat} {k : Nat}
    {flag : Bool} {lastIndex : Nat} {job job' : Job} {event : JobEvent} {effect : Effect}
    (recorded : JobRecorded raised stopped k job)
    (taken : job.Steps flag lastIndex event job' effect) {raised' : List (Nat × Throwable)}
    (told : (∃ exception, (k, exception) ∈ raised') ↔ event = .throws) :
    JobRecorded (raised ++ raised') stopped k job' := by
  obtain ⟨running, marked, threw, dropped⟩ := taken.ends
  have before : ¬ ∃ exception, (k, exception) ∈ raised := by
    rw [recorded.threw]
    intro ended
    simp [Job.isEnded, ended] at running
  refine ⟨?_, ?_, fun ended => recorded.cancelled (dropped ended) running⟩
  · rw [threw, ← told]
    simp only [List.mem_append, exists_or]
    exact or_iff_right before
  · intro stopped' _
    exact recorded.cancelled (marked ▸ stopped') running

theorem JobRecorded.mark {raised : List (Nat × Throwable)} {stopped : List Nat} {k : Nat}
    {job : Job} (recorded : JobRecorded raised stopped k job) {stopped' : List Nat}
    (told : job.isEnded = false → k ∈ stopped') :
    JobRecorded raised (stopped ++ stopped') k { job with cancelled := true } where
  threw := recorded.threw
  cancelled := fun _ running => List.mem_append_right _ (told running)
  dropped := fun ended => List.mem_append_left _ (recorded.dropped ended)

structure Marked (stopped' : List Nat) (before after : List Job) : Prop where
  jobs : ∀ (k : Nat) job', after[k]? = some job' →
    (∃ job, before[k]? = some job ∧ (job' = job ∨
      job' = { job with cancelled := true } ∧ (job.isEnded = false → k ∈ stopped'))) ∨
    k = before.length ∧ job'.pc = .launched ∧ job'.cancelled = false
  more : before.length ≤ after.length

theorem Marked.refl (stopped' : List Nat) (jobs : List Job) : Marked stopped' jobs jobs :=
  ⟨fun _ job found => Or.inl ⟨job, found, Or.inl rfl⟩, Nat.le_refl _⟩

theorem mainStep_marked {s t : FineState} (taken : mainStep s.view s.main = some t) :
    Marked (stoppedBy s .main) s.view.jobs t.view.jobs := by
  obtain ⟨view, main⟩ := s
  cases main with
  | idle => cases taken
  | cancelJob next =>
      cases taken
      refine ⟨fun k job' found => ?_, by simp⟩
      rw [ChatViewModel.cancelJob_getElem?, Option.map_eq_some_iff] at found
      obtain ⟨job, old, rfl⟩ := found
      refine Or.inl ⟨job, old, ?_⟩
      split
      · rename_i current
        refine Or.inr ⟨rfl, fun running => ?_⟩
        simp only at old current
        simp [stoppedBy, current, old, running]
      · exact Or.inl rfl
  | launch message =>
      cases taken
      simp only [ChatViewModel.getTalkerResponse]
      refine ⟨fun k job' found => ?_, by simp⟩
      rcases getElem?_concat_cases found with old | ⟨rfl, rfl⟩
      · exact Or.inl ⟨job', old, Or.inl rfl⟩
      · exact Or.inr ⟨rfl, rfl, rfl⟩
  | addUser message =>
      simp only [mainStep] at taken
      split at taken <;> cases taken <;> exact Marked.refl _ _
  | readFlag message | clearFlag next | addBubble message | setFlag message =>
      cases taken
      exact Marked.refl _ _

theorem handledBy_eq_nil (s : FineState) (a : FineAction) : handledBy s a = [] := by
  unfold handledBy
  split
  · split <;> simp
  · rfl

theorem Recorded.marked {s : State} (recorded : Recorded s) {fine : FineState} {a : FineAction}
    (marked : Marked (stoppedBy s.fine a) s.fine.view.jobs fine.view.jobs) :
    Recorded { s with
      fine := fine
      stopped := s.stopped ++ stoppedBy s.fine a
      handled := s.handled ++ handledBy s.fine a } where
  handled := by rw [recorded.handled, handledBy_eq_nil, List.append_nil]
  uncaught := recorded.uncaught
  jobs := by
    intro k job' found
    rcases marked.jobs k job' found with ⟨job, old, rfl | ⟨rfl, told⟩⟩ | ⟨rfl, pc, active⟩
    · simpa using (recorded.jobs k job' old).more (fun _ => List.not_mem_nil.elim) _
    · exact (recorded.jobs k job old).mark told
    · refine ⟨⟨?_, by simp [pc]⟩, by simp [active], by simp [pc]⟩
      rintro ⟨exception, member⟩
      exact absurd (recorded.launched _ member) (Nat.lt_irrefl _)
  launched := fun entry member => Nat.lt_of_lt_of_le (recorded.launched entry member) marked.more

theorem Recorded.stepJob {s : State} (recorded : Recorded s) {k : Nat} {event : JobEvent}
    {view : ChatViewModel} (taken : s.fine.view.stepJob k event = some view)
    (raised' uncaught' : List (Nat × Throwable)) (own : ∀ entry ∈ raised', entry.1 = k)
    (told : (∃ exception, (k, exception) ∈ raised') ↔ event = .throws)
    (part : uncaught' ⊆ raised') :
    Recorded { s with
      fine := { s.fine with view := view }
      raised := s.raised ++ raised'
      uncaught := s.uncaught ++ uncaught' } := by
  obtain ⟨job, job', effect, found, steps, rfl⟩ := ChatViewModel.stepJob_cases taken
  refine ⟨recorded.handled, ?_, ?_, ?_⟩
  · exact List.append_subset.mpr ⟨List.subset_append_of_subset_left _ recorded.uncaught,
      List.subset_append_of_subset_right _ part⟩
  · intro j other there
    simp only [ChatViewModel.afterJob_jobs] at there
    rcases getElem?_set_cases there with ⟨rfl, rfl⟩ | ⟨apart, there⟩
    · exact (recorded.jobs k job found).step steps told
    · have others : ∀ entry ∈ raised', entry.1 ≠ j := by
        intro entry member
        rw [own entry member]
        exact apart
      simpa using (recorded.jobs j other there).more others []
  · intro entry member
    simp only [ChatViewModel.afterJob_jobs, List.length_set]
    rcases List.mem_append.mp member with old | new
    · exact recorded.launched entry old
    · rw [own entry new]
      exact (List.getElem?_eq_some_iff.mp found).1

theorem uncaughtBy_subset (k : Nat) (exception : Throwable) :
    uncaughtBy k exception ⊆ [(k, exception)] := by
  unfold uncaughtBy
  split
  · exact List.nil_subset _
  · exact List.Subset.refl _

theorem recorded_step {s next : State} {a : Action} (recorded : Recorded s)
    (taken : step s a = some next) : Recorded next := by
  cases a with
  | raises k exception =>
      obtain ⟨fine, stepped, rfl⟩ := Option.map_eq_some_iff.mp taken
      obtain ⟨view, moved, rfl⟩ := Option.map_eq_some_iff.mp stepped
      exact recorded.stepJob moved _ _ (by simp) (by simp) (uncaughtBy_subset k exception)
  | fine a =>
      obtain ⟨nothingThrown, fine, stepped, rfl⟩ := step_fineAction taken
      cases fineSteps_of_fineStep stepped with
      | callSendMessage | callStopGeneration => exact recorded.marked (Marked.refl _ _)
      | main stepped => exact recorded.marked (mainStep_marked stepped)
      | job k event moved =>
          have thrown : event ≠ .throws := fun same => nothingThrown k (by rw [same])
          simpa [stoppedBy, handledBy] using recorded.stepJob moved [] [] (by simp)
            (by simpa using thrown) (List.Subset.refl _)

/-! ## Who is served -/

def Untouched (k : Nat) (s : State) : Prop :=
  (∀ exception, (k, exception) ∉ s.raised) ∧ k ∉ s.stopped

theorem untouched_step {k : Nat} {s next : State} {a : Action} (taken : step s a = some next) :
    Untouched k next ↔ Untouched k s ∧ Undisturbed k s a := by
  cases a with
  | raises j exception =>
      obtain ⟨fine, _, rfl⟩ := Option.map_eq_some_iff.mp taken
      simp only [Untouched, Undisturbed, List.mem_append, List.mem_singleton, Prod.mk.injEq,
        not_or, not_and, forall_and]
      constructor
      · rintro ⟨⟨old, new⟩, running⟩
        exact ⟨⟨old, running⟩, fun same => new exception same.symm rfl⟩
      · rintro ⟨⟨old, running⟩, apart⟩
        exact ⟨⟨old, fun _ same => absurd same.symm apart⟩, running⟩
  | fine a =>
      obtain ⟨_, fine, _, rfl⟩ := step_fineAction taken
      simp only [Untouched, Undisturbed, List.mem_append, not_or, and_assoc]

theorem Recorded.served_iff_untouched {s : State} (recorded : Recorded s) {k : Nat} {job : Job}
    (found : s.fine.view.jobs[k]? = some job) {how : JobEnd} (ended : job.pc = .ended how) :
    Served s k how ↔ Untouched k s := by
  have books := recorded.jobs k job found
  constructor
  · rintro ⟨handled, _⟩
    rw [recorded.handled] at handled
    -- nothing was handled, so nothing is owed
    cases how with
    | cancelled => cases handled
    | threw =>
        obtain ⟨exception, member⟩ := books.threw.mpr ended
        cases first : s.raised.lookup k with
        | none => exact absurd (List.lookup_eq_none_iff.mp first _ member) (by simp)
        | some raised => simp [owed, first] at handled
    | completed =>
        refine ⟨fun exception member => ?_, fun member => ?_⟩
        · have threw := books.threw.mp ⟨exception, member⟩
          rw [ended] at threw
          cases threw
        · simp [owed, member] at handled
  · rintro ⟨unraised, running⟩
    refine ⟨?_, fun exception member => unraised exception (recorded.uncaught member)⟩
    rw [recorded.handled]
    cases how with
    | cancelled => exact absurd (books.dropped ended) running
    | threw =>
        obtain ⟨exception, member⟩ := books.threw.mpr ended
        exact absurd member (unraised exception)
    | completed => simp [owed, running]

/-- A turn that has ended was dealt with as its handlers ask for exactly when
nothing was raised in it and nobody stopped it before its end. -/
theorem served_iff {actions : List Action} {s : State}
    (run : runSteps step .init actions = some s) {k : Nat} {job : Job}
    (found : s.fine.view.jobs[k]? = some job) {how : JobEnd} (ended : job.pc = .ended how) :
    Served s k how ↔ StepsMeet step (Undisturbed k) .init actions := by
  have recorded : Recorded s :=
    (visits_of_keep (fun _ _ _ before taken => recorded_step before taken)
      recorded_init).finish run
  have untouched : Untouched k State.init := ⟨by simp [State.init], by simp [State.init]⟩
  calc Served s k how
    _ ↔ Untouched k s := recorded.served_iff_untouched found ended
    _ ↔ Visits step (Untouched k) .init actions :=
        (visits_iff_of_finish (fun _ _ _ taken later => ((untouched_step taken).mp later).1)
          run).symm
    _ ↔ StepsMeet step (Undisturbed k) .init actions :=
        visits_iff_stepsMeet (I := fun _ => True) (fun _ _ _ _ _ => trivial)
          (fun _ _ _ _ before taken => (untouched_step taken).trans (and_iff_right before))
          trivial untouched

def asked : List Action :=
  [.callSendMessage (kstring "Hi"), .main, .main, .main, .main, .main, .job 0 .run].map .fine

/-- One chunk is typed out, then the end marker comes. -/
def undisturbedTurn : List Action :=
  asked ++ ([.job 0 (.returns (kstring "o")), .job 0 .run, .job 0 .run, .job 0 .run, .job 0 .run,
    .job 0 .run, .job 0 .run, .job 0 (.returns endMarker), .job 0 .run, .job 0 .run] : List
    FineAction).map .fine

def undisturbedEnd : State := (runSteps step .init undisturbedTurn).getD .init

def undisturbedJob : Job :=
  { query := kstring "Hi", responseContent := kstring "o", pc := .ended .completed
    cancelled := false }

theorem served_iff_undisturbed :
    Served undisturbedEnd 0 .completed ↔
      StepsMeet step (Undisturbed 0) .init undisturbedTurn := by
  have found : undisturbedEnd.fine.view.jobs[0]? = some undisturbedJob := by decide +kernel
  exact served_iff (by decide +kernel) found rfl

def contextSizeReached : Throwable :=
  { message := kstring "context size reached", isCancellation := false }

/-- The context is full at the first call. -/
def fullContext : List Action := asked ++ [.raises 0 contextSizeReached]

def fullContextEnd : State := (runSteps step .init fullContext).getD .init

/-- No handler is called, and the exception reaches the scope. -/
theorem not_served_contextSizeReached :
    runSteps step .init fullContext = some fullContextEnd ∧
      fullContextEnd.fine.view.jobs.map Job.pc = [.ended .threw] ∧
      fullContextEnd.handled = [] ∧
      owed fullContextEnd 0 .threw = [.onError contextSizeReached] ∧
      (0, contextSizeReached) ∈ fullContextEnd.uncaught ∧
      ¬ Served fullContextEnd 0 .threw := by
  have caught : (0, contextSizeReached) ∈ fullContextEnd.uncaught := by decide +kernel
  refine ⟨by decide +kernel, by decide +kernel, by decide +kernel, by decide +kernel, caught, ?_⟩
  exact fun served => served.caught _ caught

end Handlers

end MineGPT.Ui
