import MineGPT.Ui.Typing

/-!
# Stopping a turn

`stopGeneration` clears the flag and then cancels the job, which may be inside a
native call or between its check of the flag and the write.  From the first step
on only a text whose check has been passed is still written, and once the job is
cancelled its next `emit` or `delay` is its last step but for the end of the
reply: a potential bounds the native calls that are left.
-/

set_option autoImplicit false

namespace MineGPT.Ui

open MineGPT.Lib.Machine MineGPT.Lib.Components

def textsOf (k : Nat) (v : ChatViewModel) : List KString :=
  (v.bubbleWrites.filter fun written => written.job = k).map BubbleWrite.text

def sampledBy (k : Nat) (v : ChatViewModel) : Nat := v.nativeCalls.count (k, .completionLoop)

/-- The text of the character for which the flag has been read. -/
def Job.due (job : Job) : Option KString :=
  match job.pc with
  | .lastIndex chunk i => some (job.typed chunk i)
  | .write chunk i _ => some (job.typed chunk i)
  | _ => none

/-- The job is inside the call, or about to make it. -/
def Job.sampling (job : Job) : Bool := job.pc = .completionLoop

/-- The next step of the job hands a chunk to the collector. -/
def Job.collects (job : Job) : Bool :=
  match job.pc with
  | .emit _ => !job.cancelled
  | _ => false

def Delivers (k : Nat) (s : FineState) (a : FineAction) : Prop :=
  a = .job k .run ∧ s.view.jobs[k]?.any Job.collects = true

/-- What is left of job `k` in the run `later` from `s` to `t`: one more call of
`completionLoop` at most, no chunk, and no text but the one that is due. -/
structure Stopped (k : Nat) (due : Option KString) (s : FineState) (later : List FineAction)
    (t : FineState) : Prop where
  calls : sampledBy k t.view + (if t.view.jobs[k]?.any Job.sampling then 1 else 0) ≤
    sampledBy k s.view + 1
  delivered : StepsMeet fineStep (fun s a => ¬ Delivers k s a) s later
  writes : ∃ more, textsOf k t.view = textsOf k s.view ++ more ∧ more <+: due.toList

/-! ## A job without the flag -/

/-- The `completionLoop` calls that a cancelled job can still make while the flag
is clear. -/
def Job.callsLeft (job : Job) : Nat :=
  match job.pc with
  | .launched => 1
  | .completionLoop => 1
  | .check _ _ => 1
  | _ => 0

def Effect.samples : Effect → Nat
  | .native .completionLoop => 1
  | _ => 0

/-- No check is passed, so what is due gets written or stays due. -/
theorem Job.Steps.due {lastIndex : Nat} {job job' : Job} {event : JobEvent} {effect : Effect}
    (taken : job.Steps false lastIndex event job' effect) :
    effect.texts ++ job'.due.toList = job.due.toList := by
  cases taken with
  | checked chunk i pc inside generating => cases generating
  | readIndex chunk i pc => simp [Job.due, pc, moveTo, Effect.texts, Job.typed]
  | write chunk i index pc => simp [Job.due, pc, moveTo, Effect.texts]
  | start pc | startThrows pc | dropped pc | sample text pc | sampleEnd pc | sampleThrows pc
  | emit chunk pc | emitCancelled chunk pc | typedOut chunk i pc | delay chunk i pc
  | delayCancelled chunk i pc | stop pc | stopThrows pc | clearFlag pc =>
      simp [Job.due, pc, moveTo, Effect.texts]

/-- A cancelled job stays so, and every call it makes is one of those left. -/
theorem Job.Steps.cancelled {lastIndex : Nat} {job job' : Job} {event : JobEvent} {effect : Effect}
    (taken : job.Steps false lastIndex event job' effect) (stopped : job.cancelled = true) :
    job'.cancelled = true ∧ effect.samples + job'.callsLeft ≤ job.callsLeft := by
  cases taken with
  | checked chunk i pc inside generating => cases generating
  | emit chunk pc active => rw [active] at stopped; cases stopped
  | delay chunk i pc active => rw [active] at stopped; cases stopped
  | start pc | startThrows pc | dropped pc | sample text pc | sampleEnd pc | sampleThrows pc
  | emitCancelled chunk pc | typedOut chunk i pc | readIndex chunk i pc | write chunk i index pc
  | delayCancelled chunk i pc | stop pc | stopThrows pc | clearFlag pc =>
      exact ⟨stopped, by simp [callsLeft, pc, moveTo, Effect.samples]⟩

/-! ## The screen -/

theorem textsOf_afterJob (k j : Nat) (job : Job) (effect : Effect) (v : ChatViewModel) :
    textsOf k (v.afterJob j job effect) =
      if j = k then textsOf k v ++ effect.texts else textsOf k v := by
  rw [textsOf, ChatViewModel.afterJob_bubbleWrites, List.filter_append]
  cases effect with
  | write index text =>
      by_cases here : j = k
      · simp [Effect.bubbleWrites, here, Effect.texts, textsOf]
      · simp [Effect.bubbleWrites, here, textsOf]
  | none | native call | clearFlag => simp [Effect.bubbleWrites, Effect.texts, textsOf]

theorem sampledBy_afterJob (k j : Nat) (job : Job) (effect : Effect) (v : ChatViewModel) :
    sampledBy k (v.afterJob j job effect) =
      if j = k then sampledBy k v + effect.samples else sampledBy k v := by
  rw [sampledBy, ChatViewModel.afterJob_nativeCalls, List.count_append]
  cases effect with
  | native call =>
      by_cases here : j = k
      · cases call <;> simp [Effect.nativeCalls, here, Effect.samples, sampledBy]
      · simp [Effect.nativeCalls, here, sampledBy]
  | none | write index text | clearFlag => simp [Effect.nativeCalls, Effect.samples, sampledBy]

def NoMessage : FineAction → Prop
  | .callSendMessage _ => False
  | _ => True

theorem fineStep_quiet {s t : FineState} {a : FineAction} (stops : s.main.stopsOnly = true)
    (dark : s.view.isGenerating = false) (quiet : NoMessage a) (taken : fineStep s a = some t)
    {k : Nat} {job : Job} (found : s.view.jobs[k]? = some job) :
    t.main.stopsOnly = true ∧ t.view.isGenerating = false ∧
      ((∃ event job' effect, job.Steps false s.view.lastIndex event job' effect ∧
          t.view.jobs[k]? = some job' ∧ textsOf k t.view = textsOf k s.view ++ effect.texts ∧
          sampledBy k t.view = sampledBy k s.view + effect.samples) ∨
        (∃ job', t.view.jobs[k]? = some job' ∧
          (job' = job ∨ job' = { job with cancelled := true }) ∧
          textsOf k t.view = textsOf k s.view ∧ sampledBy k t.view = sampledBy k s.view)) := by
  cases fineSteps_of_fineStep taken with
  | callSendMessage message => exact quiet.elim
  | callStopGeneration => exact ⟨rfl, dark, Or.inr ⟨job, found, Or.inl rfl, rfl, rfl⟩⟩
  | main taken =>
      obtain ⟨kept, flag | cancel⟩ := mainStep_stopsOnly stops taken
      · rw [flag]
        exact ⟨kept, rfl, Or.inr ⟨job, found, Or.inl rfl, rfl, rfl⟩⟩
      · have marked := ChatViewModel.cancelJob_getElem? s.view k
        rw [found, Option.map_some] at marked
        rw [cancel]
        refine ⟨kept, s.view.cancelJob_isGenerating.trans dark, Or.inr ⟨_, marked, ?_, ?_, ?_⟩⟩
        · split
          · exact Or.inr rfl
          · exact Or.inl rfl
        · rw [textsOf, ChatViewModel.cancelJob_bubbleWrites]
          rfl
        · rw [sampledBy, ChatViewModel.cancelJob_nativeCalls]
          rfl
  | job j event stepped =>
      obtain ⟨here, job', effect, there, steps, rfl⟩ := ChatViewModel.stepJob_cases stepped
      rw [dark] at steps
      refine ⟨stops, ?_, ?_⟩
      · rw [ChatViewModel.afterJob_isGenerating, dark, ite_self]
      · simp only [ChatViewModel.afterJob_jobs, textsOf_afterJob, sampledBy_afterJob]
        by_cases same : j = k
        · subst same
          obtain rfl := Option.some.inj (found.symm.trans there)
          have inside : j < s.view.jobs.length := (List.getElem?_eq_some_iff.mp found).1
          exact Or.inl ⟨event, job', effect, steps, List.getElem?_set_self inside,
            if_pos rfl, if_pos rfl⟩
        · exact Or.inr ⟨job, by rw [List.getElem?_set_ne same, found], Or.inl rfl,
            if_neg same, if_neg same⟩

/-! ## Since the flag was cleared -/

/-- The flag is clear and stays so.  What job `k` has written behind the texts
`base`, with what is still due, is what was due. -/
structure Darkened (k : Nat) (base due : List KString) (s : FineState) : Prop where
  main : s.main.stopsOnly = true
  flag : s.view.isGenerating = false
  texts : ∃ job more, s.view.jobs[k]? = some job ∧ textsOf k s.view = base ++ more ∧
    more ++ job.due.toList = due

theorem darkened_start {k : Nat} {s : FineState} (main : s.main.stopsOnly = true)
    (flag : s.view.isGenerating = false) {job : Job} (found : s.view.jobs[k]? = some job) :
    Darkened k (textsOf k s.view) job.due.toList s :=
  ⟨main, flag, job, [], found, (List.append_nil _).symm, rfl⟩

theorem Darkened.step {k : Nat} {base due : List KString} {s t : FineState} {a : FineAction}
    (dark : Darkened k base due s) (quiet : NoMessage a) (taken : fineStep s a = some t) :
    Darkened k base due t := by
  obtain ⟨main, flag, job, more, found, texts, whole⟩ := dark
  obtain ⟨main', flag', moved | kept⟩ := fineStep_quiet main flag quiet taken found
  · obtain ⟨event, job', effect, steps, found', written, _⟩ := moved
    refine ⟨main', flag', job', more ++ effect.texts, found', ?_, ?_⟩
    · rw [written, texts, List.append_assoc]
    · rw [List.append_assoc, steps.due, whole]
  · obtain ⟨job', found', same, written, _⟩ := kept
    refine ⟨main', flag', job', more, found', written.trans texts, ?_⟩
    rw [← whole]
    rcases same with rfl | rfl <;> rfl

/-- Job `k` is cancelled as well, and `budget` bounds its calls. -/
structure Halted (k : Nat) (budget : Nat) (s : FineState) : Prop where
  main : s.main.stopsOnly = true
  flag : s.view.isGenerating = false
  job : ∃ job, s.view.jobs[k]? = some job ∧ job.cancelled = true ∧
    sampledBy k s.view + job.callsLeft ≤ budget

theorem Halted.step {k : Nat} {budget : Nat} {s t : FineState} {a : FineAction}
    (halted : Halted k budget s) (quiet : NoMessage a) (taken : fineStep s a = some t) :
    Halted k budget t := by
  obtain ⟨main, flag, job, found, stopped, left⟩ := halted
  obtain ⟨main', flag', moved | kept⟩ := fineStep_quiet main flag quiet taken found
  · obtain ⟨event, job', effect, steps, found', _, sampled⟩ := moved
    obtain ⟨stopped', budget'⟩ := steps.cancelled stopped
    exact ⟨main', flag', job', found', stopped', by omega⟩
  · obtain ⟨job', found', marked, _, sampled⟩ := kept
    refine ⟨main', flag', job', found', ?_⟩
    rw [sampled]
    rcases marked with rfl | rfl
    · exact ⟨stopped, left⟩
    · exact ⟨rfl, left⟩

theorem Halted.not_delivers {k : Nat} {budget : Nat} {s : FineState}
    (halted : Halted k budget s) (a : FineAction) : ¬ Delivers k s a := by
  obtain ⟨_, _, job, found, stopped, _⟩ := halted
  rintro ⟨_, collects⟩
  rw [found, Option.any_some, Job.collects] at collects
  split at collects
  · rw [stopped] at collects
    cases collects
  · cases collects

/-! ## A stop -/

def OfJobs (actions : List FineAction) : Prop := ∀ a ∈ actions, ∃ j event, a = .job j event

theorem OfJobs.noMessage {actions : List FineAction} (jobs : OfJobs actions) :
    ∀ a ∈ actions, NoMessage a := by
  intro a member
  obtain ⟨j, event, rfl⟩ := jobs a member
  trivial

theorem ofJobs_run : ∀ {actions : List FineAction} {s t : FineState}, OfJobs actions →
    runSteps fineStep s actions = some t →
    t.main = s.main ∧ t.view.responseGenerationJob = s.view.responseGenerationJob := by
  intro actions
  induction actions with
  | nil =>
      intro s t _ run
      obtain rfl := Option.some.inj run
      exact ⟨rfl, rfl⟩
  | cons a rest ih =>
      intro s t jobs run
      obtain ⟨next, taken, later⟩ := Option.bind_eq_some_iff.mp run
      obtain ⟨j, event, rfl⟩ := jobs a (by simp)
      obtain ⟨view, stepped, rfl⟩ := Option.map_eq_some_iff.mp taken
      obtain ⟨_, job', effect, _, _, rfl⟩ := ChatViewModel.stepJob_cases stepped
      obtain ⟨main, current⟩ := ih (fun b member => jobs b (by simp [member])) later
      exact ⟨main, current.trans (ChatViewModel.afterJob_responseGenerationJob _ _ _ _)⟩

theorem Job.callsLeft_le (job : Job) : job.callsLeft ≤ 1 := by
  unfold callsLeft
  split <;> omega

theorem Job.sampling_le (job : Job) : (if job.sampling then 1 else 0) ≤ job.callsLeft := by
  split
  · rename_i sampling
    simp only [Job.sampling, decide_eq_true_eq] at sampling
    simp [callsLeft, sampling]
  · exact Nat.zero_le _

theorem Darkened.cancel {k : Nat} {base due : List KString} {s returned : FineState}
    (dark : Darkened k base due s) (current : s.view.responseGenerationJob = some k)
    (main : s.main = .cancelJob none) (taken : fineStep s .main = some returned) :
    Halted k (sampledBy k returned.view + 1) returned := by
  obtain ⟨_, flag, job, _, found, _⟩ := dark
  simp only [fineStep, main, mainStep] at taken
  obtain rfl := Option.some.inj taken
  have marked := ChatViewModel.cancelJob_getElem? s.view k
  rw [found, Option.map_some, if_pos current] at marked
  refine ⟨rfl, ?_, _, marked, rfl, ?_⟩
  · exact s.view.cancelJob_isGenerating.trans flag
  · exact Nat.add_le_add_left (Job.callsLeft_le _) _

theorem prefix_of_due {due : Option KString} {written left later : List KString}
    (whole : written ++ left = due.toList) (part : later <+: left) : later <+: due.toList := by
  cases due with
  | none =>
      rw [Option.toList_none, List.append_eq_nil_iff] at whole
      rwa [whole.2] at part
  | some text =>
      rcases List.append_eq_singleton_iff.mp whole with ⟨_, here⟩ | ⟨_, nothing⟩
      · rwa [here] at part
      · rw [nothing, List.prefix_nil] at part
        rw [part]
        exact List.nil_prefix

/-- Wherever the job stands when the stop clears the flag, and whatever the jobs do
until it has cancelled it: with no further message the job makes one more
`completionLoop` call at most, gets no chunk, and writes no text but the one
whose check it had passed by then. -/
theorem stopped_of_stopGeneration {s returned t : FineState} {k : Nat} {job : Job}
    (stopping : s.main = .clearFlag none) (current : s.view.responseGenerationJob = some k)
    (found : s.view.jobs[k]? = some job) {between later : List FineAction}
    (jobs : OfJobs between) (quiet : ∀ a ∈ later, NoMessage a)
    (returns : runSteps fineStep s (.main :: (between ++ [.main])) = some returned)
    (run : runSteps fineStep returned later = some t) :
    Stopped k job.due returned later t := by
  obtain ⟨cleared, first, rest⟩ := Option.bind_eq_some_iff.mp returns
  rw [runSteps_append] at rest
  obtain ⟨reached, during, last⟩ := Option.bind_eq_some_iff.mp rest
  have taken : fineStep reached .main = some returned := by simpa [runSteps] using last
  have view : cleared = { view := s.view.setFlag false, main := .cancelJob none } := by
    simp only [fineStep, stopping, mainStep] at first
    exact (Option.some.inj first).symm
  -- from the first step on, what is due is all that gets written
  have dark : Darkened k (textsOf k cleared.view) job.due.toList cleared := by
    rw [view]
    exact darkened_start rfl rfl found
  have darkReached := (visits_of_stepsMeet (fun _ _ _ dark quiet taken => dark.step quiet taken)
    dark (stepsMeet_of_forall jobs.noMessage)).finish during
  obtain ⟨mainReturned, flag, here, more, held, _, whole⟩ :=
    darkReached.step (a := .main) trivial taken
  -- from the second step on, the calls are bounded
  obtain ⟨main, same⟩ := ofJobs_run jobs during
  rw [view] at main same
  have halted : Visits fineStep (Halted k (sampledBy k returned.view + 1)) returned later :=
    visits_of_stepsMeet (fun _ _ _ halted quiet taken => halted.step quiet taken)
      (darkReached.cancel (same.trans current) main taken) (stepsMeet_of_forall quiet)
  obtain ⟨_, _, last, foundLast, _, budget⟩ := halted.finish run
  obtain ⟨_, _, _, later, _, texts, rest⟩ :=
    (visits_of_stepsMeet (fun _ _ _ dark quiet taken => dark.step quiet taken)
      (darkened_start mainReturned flag held) (stepsMeet_of_forall quiet)).finish run
  refine ⟨?_, ?_, later, texts, ?_⟩
  · have sampling := last.sampling_le
    rw [foundLast, Option.any_some]
    omega
  · exact halted.stepsMeet fun _ a halted => halted.not_delivers a
  · exact prefix_of_due whole ⟨_, rest⟩

/-- The turn is stopped with the check passed for the first character of `ok`. -/
def stopIn : List FineAction :=
  [.callSendMessage (kstring "Hi"), .main, .main, .main, .main, .main, .job 0 .run,
    .job 0 (.returns (kstring "ok")), .job 0 .run, .job 0 .run, .callStopGeneration]

def stopInState : FineState := (runSteps fineStep .init stopIn).getD .init

/-- The write that is due, then the end at the `delay`. -/
def stopOut : List FineAction := [.job 0 .run, .job 0 .run]

def stopReturned : FineState :=
  (runSteps fineStep stopInState (.main :: ([.job 0 .run] ++ [.main]))).getD .init

def stopEnd : FineState := (runSteps fineStep stopReturned stopOut).getD .init

def stopJob : Job :=
  { query := kstring "Hi", responseContent := kstring "ok", pc := .lastIndex (kstring "ok") 0
    cancelled := false }

theorem stopped_of_stopGeneration_ok : Stopped 0 stopJob.due stopReturned stopOut stopEnd := by
  have found : stopInState.view.jobs[0]? = some stopJob := by decide +kernel
  have jobs : OfJobs [.job 0 .run] := by simp [OfJobs]
  exact stopped_of_stopGeneration (by decide +kernel) (by decide +kernel) found jobs
    (by simp [stopOut, NoMessage]) (by decide +kernel) (by decide +kernel)

end MineGPT.Ui
