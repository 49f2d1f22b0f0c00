import MineGPT.Lib.Components
import MineGPT.Ui.ViewModel

/-!
# One job at a time on the native session

`stopGeneration` cancels a job without waiting for it, so the next job can
start while the old one is still going to call the session.  Calls stay apart
in every run in which, whenever a job calls `startCompletion`, each earlier job
is quiet or has not started, and no later one has.
-/

set_option autoImplicit false

namespace MineGPT.Ui

open MineGPT.Lib.Machine MineGPT.Lib.Components

/-- Once a job has called `startCompletion`, no earlier one calls
`completionLoop` or `stopCompletion`. -/
def Exclusive (calls : List (Nat × NativeCall)) : Prop :=
  calls.Pairwise fun earlier later =>
    earlier.2 = .startCompletion → later.2 ≠ .startCompletion → earlier.1 ≤ later.1

/-- The job makes no native call any more: it has ended or is about to, or it
was stopped and comes to an `emit` or a `delay` next. -/
def Job.quiet (job : Job) : Bool :=
  match job.pc with
  | .ended _ => true
  | .clearFlag => true
  | .emit _ => job.cancelled
  | .lastIndex _ _ => job.cancelled
  | .write _ _ _ => job.cancelled
  | .delay _ _ => job.cancelled
  | _ => false

def Job.unstarted (job : Job) : Bool := job.pc = .launched

def FindsFree (v : ChatViewModel) (k : Nat) : Prop :=
  (∀ job ∈ v.jobs.take k, job.quiet = true ∨ job.unstarted = true) ∧
    ∀ call ∈ v.nativeCalls, call.2 = .startCompletion → call.1 ≤ k

def startsJob (v : ChatViewModel) (k : Nat) (event : JobEvent) : Bool :=
  v.jobs[k]?.any Job.unstarted && event != .dropped

/-- The condition on a step: one that starts a job finds the session free. -/
def StartsFree (v : ChatViewModel) : Action → Prop
  | .job k event => startsJob v k event = true → FindsFree v k
  | _ => True

instance (v : ChatViewModel) (k : Nat) : Decidable (FindsFree v k) :=
  inferInstanceAs (Decidable (_ ∧ _))

instance (v : ChatViewModel) : (a : Action) → Decidable (StartsFree v a)
  | .sendMessage _ => isTrue trivial
  | .stopGeneration => isTrue trivial
  | .job _ _ => inferInstanceAs (Decidable (_ → _))

instance (calls : List (Nat × NativeCall)) : Decidable (Exclusive calls) :=
  inferInstanceAs (Decidable (calls.Pairwise _))

/-! ## What a job's step can do -/

/-- The kinds of steps, by where the job stands: a quiet job stays quiet, an
unstarted one starts or is dropped, any other one does not start. -/
theorem Job.Steps.kinds {flag : Bool} {lastIndex : Nat} {job job' : Job} {event : JobEvent}
    {effect : Effect} (taken : job.Steps flag lastIndex event job' effect) :
    (job'.quiet = true ∧ ∀ k, effect.nativeCalls k = []) ∨
    (job.unstarted = true ∧ (event = .run ∨ event = .throws) ∧
      ∀ k, effect.nativeCalls k = [(k, .startCompletion)]) ∨
    (job.quiet = false ∧ job.unstarted = false ∧
      ∀ k, ∀ call ∈ effect.nativeCalls k, call.1 = k ∧ call.2 ≠ .startCompletion) := by
  cases taken with
  | start pc => exact Or.inr (Or.inl ⟨by simp [unstarted, pc], Or.inl rfl, fun _ => rfl⟩)
  | startThrows pc => exact Or.inr (Or.inl ⟨by simp [unstarted, pc], Or.inr rfl, fun _ => rfl⟩)
  | dropped pc | emitCancelled chunk pc | delayCancelled chunk i pc | clearFlag pc =>
      exact Or.inl ⟨rfl, fun _ => rfl⟩
  | sample text pc | sampleEnd pc | sampleThrows pc | stop pc | stopThrows pc
  | checked chunk i pc | typedOut chunk i pc =>
      exact Or.inr (Or.inr ⟨by simp [quiet, pc], by simp [unstarted, pc],
        by simp [Effect.nativeCalls]⟩)
  | emit chunk pc active | delay chunk i pc active =>
      exact Or.inr (Or.inr ⟨by simp [quiet, pc, active], by simp [unstarted, pc],
        by simp [Effect.nativeCalls]⟩)
  | readIndex chunk i pc | write chunk i index pc =>
      -- a stopped job ends at the `delay` it comes to next
      cases stopped : job.cancelled with
      | true => exact Or.inl ⟨stopped, fun _ => rfl⟩
      | false =>
          exact Or.inr (Or.inr ⟨by simp [quiet, pc, stopped], by simp [unstarted, pc],
            by simp [Effect.nativeCalls]⟩)

/-! ## The invariant -/

/-- The calls are exclusive, and before every job that was started all are
quiet or unstarted. -/
structure SessionApart (v : ChatViewModel) : Prop where
  exclusive : Exclusive v.nativeCalls
  launched : ∀ call ∈ v.nativeCalls, call.1 < v.jobs.length
  before : ∀ call ∈ v.nativeCalls, call.2 = .startCompletion →
    ∀ k < call.1, ∀ job, v.jobs[k]? = some job → job.quiet = true ∨ job.unstarted = true

theorem SessionApart.grow {v w : ChatViewModel} (apart : SessionApart v)
    (calls : w.nativeCalls = v.nativeCalls) (longer : v.jobs.length ≤ w.jobs.length)
    (same : ∀ k < v.jobs.length, ∀ job', w.jobs[k]? = some job' →
      ∃ job, v.jobs[k]? = some job ∧ (job.quiet = true → job'.quiet = true) ∧
        (job.unstarted = true → job'.unstarted = true)) : SessionApart w where
  exclusive := by rw [calls]; exact apart.exclusive
  launched := by
    rw [calls]
    exact fun call made => Nat.lt_of_lt_of_le (apart.launched call made) longer
  before := by
    rw [calls]
    intro call made starts k earlier job' found
    have inside := apart.launched call made
    obtain ⟨job, old, keepQuiet, keepUnstarted⟩ := same k (by omega) job' found
    exact (apart.before call made starts k earlier job old).imp keepQuiet keepUnstarted

theorem quiet_cancel {job : Job} (quiet : job.quiet = true) :
    ({ job with cancelled := true } : Job).quiet = true := by
  simp only [Job.quiet] at quiet ⊢
  split at quiet <;> simp_all

theorem SessionApart.stopGeneration {v : ChatViewModel} (apart : SessionApart v) :
    SessionApart v.stopGeneration := by
  refine apart.grow (by simp [ChatViewModel.stopGeneration, ChatViewModel.setFlag])
    (by simp [ChatViewModel.stopGeneration]) ?_
  intro k _ job' found
  rw [ChatViewModel.stopGeneration, ChatViewModel.cancelJob_getElem?,
    Option.map_eq_some_iff] at found
  obtain ⟨job, old, rfl⟩ := found
  refine ⟨job, old, ?_⟩
  split
  · exact ⟨quiet_cancel, fun unstarted => unstarted⟩
  · exact ⟨fun quiet => quiet, fun unstarted => unstarted⟩

theorem SessionApart.sendMessage {v : ChatViewModel} (apart : SessionApart v)
    (message : KString) : SessionApart (v.sendMessage message) := by
  apply ChatViewModel.sendMessage_keeps message apart apart.stopGeneration
  intro u kept
  apply kept.grow
  · rfl
  · simp [ChatViewModel.getTalkerResponse]
  · intro k inside job' found
    refine ⟨job', ?_, fun quiet => quiet, fun unstarted => unstarted⟩
    simpa [ChatViewModel.getTalkerResponse, List.getElem?_append_left inside] using found

theorem SessionApart.afterJob {v : ChatViewModel} (apart : SessionApart v) {k : Nat}
    (inside : k < v.jobs.length) {job' : Job} {effect : Effect}
    (own : ∀ call ∈ effect.nativeCalls k, call.1 = k)
    (exclusive : Exclusive (v.nativeCalls ++ effect.nativeCalls k))
    (before : ∀ call ∈ v.nativeCalls ++ effect.nativeCalls k, call.2 = .startCompletion →
      ∀ i < call.1, ∀ job, (v.jobs.set k job')[i]? = some job →
        job.quiet = true ∨ job.unstarted = true) : SessionApart (v.afterJob k job' effect) where
  exclusive := by
    rw [ChatViewModel.afterJob_nativeCalls]
    exact exclusive
  launched := by
    intro call made
    rw [ChatViewModel.afterJob_nativeCalls] at made
    rw [ChatViewModel.afterJob_jobs, List.length_set]
    rcases List.mem_append.mp made with old | new
    · exact apart.launched call old
    · rw [own call new]
      exact inside
  before := by
    rw [ChatViewModel.afterJob_nativeCalls, ChatViewModel.afterJob_jobs]
    exact before

theorem SessionApart.quietStep {v : ChatViewModel} (apart : SessionApart v) {k : Nat}
    (inside : k < v.jobs.length) {job' : Job} {effect : Effect} (quiet : job'.quiet = true)
    (noCall : ∀ k, effect.nativeCalls k = []) : SessionApart (v.afterJob k job' effect) := by
  apply apart.afterJob inside
  · simp [noCall]
  · simpa [noCall] using apart.exclusive
  · rw [noCall, List.append_nil]
    intro call made isStart i earlier other here
    rcases getElem?_set_cases here with ⟨_, rfl⟩ | ⟨_, here⟩
    · exact Or.inl quiet
    · exact apart.before call made isStart i earlier other here

theorem SessionApart.startStep {v : ChatViewModel} (apart : SessionApart v) {k : Nat}
    (inside : k < v.jobs.length) {job' : Job} {effect : Effect}
    (call : ∀ k, effect.nativeCalls k = [(k, .startCompletion)]) (finds : FindsFree v k) :
    SessionApart (v.afterJob k job' effect) := by
  apply apart.afterJob inside
  · simp [call]
  · rw [call, Exclusive, List.pairwise_append]
    refine ⟨apart.exclusive, List.pairwise_singleton _ _, ?_⟩
    intro earlier _ later isNew _ notStart
    rw [List.mem_singleton.mp isNew] at notStart
    exact absurd rfl notStart
  · rw [call]
    intro made isMade isStart i earlier other here
    rcases List.mem_append.mp isMade with old | new
    · have upTo := finds.2 made old isStart
      rw [List.getElem?_set_ne (by omega)] at here
      exact apart.before made old isStart i earlier other here
    · rw [List.mem_singleton.mp new] at earlier
      rw [List.getElem?_set_ne (by omega)] at here
      apply finds.1 other
      rw [List.mem_take_iff_getElem]
      obtain ⟨bound, rfl⟩ := List.getElem?_eq_some_iff.mp here
      exact ⟨i, by omega, rfl⟩

theorem SessionApart.ongoingStep {v : ChatViewModel} (apart : SessionApart v) {k : Nat}
    {job job' : Job} (found : v.jobs[k]? = some job) (loud : job.quiet = false)
    (started : job.unstarted = false) {effect : Effect}
    (calls : ∀ k, ∀ call ∈ effect.nativeCalls k, call.1 = k ∧ call.2 ≠ .startCompletion) :
    SessionApart (v.afterJob k job' effect) := by
  have upTo : ∀ made ∈ v.nativeCalls, made.2 = .startCompletion → made.1 ≤ k := by
    intro made old isStart
    by_contra behind
    rcases apart.before made old isStart k (by omega) job found with isQuiet | isUnstarted
    · rw [loud] at isQuiet
      cases isQuiet
    · rw [started] at isUnstarted
      cases isUnstarted
  apply apart.afterJob (List.getElem?_eq_some_iff.mp found).1
  · exact fun call made => (calls k call made).1
  · rw [Exclusive, List.pairwise_append]
    refine ⟨apart.exclusive, ?_, ?_⟩
    · exact List.pairwise_of_forall_mem_list fun first isFirst _ _ isStart _ =>
        absurd isStart (calls k first isFirst).2
    · intro earlier old later new isStart _
      rw [(calls k later new).1]
      exact upTo earlier old isStart
  · intro made isMade isStart i earlier other here
    rcases List.mem_append.mp isMade with old | new
    · have := upTo made old isStart
      rw [List.getElem?_set_ne (by omega)] at here
      exact apart.before made old isStart i earlier other here
    · exact absurd isStart (calls k made new).2

theorem SessionApart.stepJob {v w : ChatViewModel} (apart : SessionApart v) {k : Nat}
    {event : JobEvent} (free : StartsFree v (.job k event))
    (taken : v.stepJob k event = some w) : SessionApart w := by
  obtain ⟨job, job', effect, found, steps, rfl⟩ := ChatViewModel.stepJob_cases taken
  have inside : k < v.jobs.length := (List.getElem?_eq_some_iff.mp found).1
  rcases steps.kinds with ⟨quiet, noCall⟩ | ⟨unstarted, starts, call⟩ | ⟨loud, started, calls⟩
  · exact apart.quietStep inside quiet noCall
  · apply apart.startStep inside call
    apply free
    rcases starts with rfl | rfl <;> simp [startsJob, found, unstarted]
  · exact apart.ongoingStep found loud started calls

/-- Native calls of different jobs never interleave in a run in which every job
that starts finds the session free. -/
theorem exclusive_of_startsFree {actions : List Action}
    (free : StepsMeet step StartsFree ChatViewModel.init actions) :
    Visits step (fun v => Exclusive v.nativeCalls) ChatViewModel.init actions := by
  have start : SessionApart ChatViewModel.init :=
    ⟨List.Pairwise.nil, by simp [ChatViewModel.init], by simp [ChatViewModel.init]⟩
  have keeps : ∀ v a w, SessionApart v → StartsFree v a → step v a = some w →
      SessionApart w := by
    intro v a w apart guard taken
    cases a with
    | sendMessage message =>
        cases taken
        exact apart.sendMessage message
    | stopGeneration =>
        cases taken
        exact apart.stopGeneration
    | job k event => exact apart.stepJob guard taken
  exact (visits_of_stepsMeet keeps start free).mono fun _ apart => apart.exclusive

def oneAfterTheOther : List Action :=
  [.sendMessage (kstring "a"), .job 0 .run, .job 0 (.returns endMarker), .job 0 .run,
    .sendMessage (kstring "b"), .job 1 .run, .job 0 .run, .job 1 (.returns endMarker)]

theorem exclusive_oneAfterTheOther :
    Visits step (fun v => Exclusive v.nativeCalls) ChatViewModel.init oneAfterTheOther :=
  exclusive_of_startsFree (by decide)

/-- The first job is stopped while it waits for its next token: it still asks
the session, which the second job has started by then. -/
theorem not_exclusive_overlap :
    ¬ Visits step (fun v => Exclusive v.nativeCalls) ChatViewModel.init
      [.sendMessage (kstring "a"), .job 0 .run, .stopGeneration, .sendMessage (kstring "b"),
        .job 1 .run, .job 0 (.returns (kstring "x"))] := by
  decide

end MineGPT.Ui
