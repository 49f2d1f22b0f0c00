import MineGPT.Ui.ViewModel

/-!
# The generating flag

`isGenerating` is one cell for all jobs.  The last step of every job clears it,
also when a later job is running by then; a job that ends with an exception
never reaches that step.  These are the only steps after which the flag is
wrong.
-/

set_option autoImplicit false

namespace MineGPT.Ui

open MineGPT.Lib.Machine

/-- The job launched last has neither ended nor been stopped. -/
def latestLive (v : ChatViewModel) : Bool := v.jobs.getLast?.any Job.isLive

def FlagTracks (v : ChatViewModel) : Prop := v.isGenerating = latestLive v

def isLatest (v : ChatViewModel) (k : Nat) : Bool := k + 1 = v.jobs.length

/-- The condition on a step of job `k`: no exception while it is the latest and
live, no clearing step while a later one is live. -/
def KeepsFlag (v : ChatViewModel) : Action → Prop
  | .job k event =>
    (event = .throws → ¬ (isLatest v k = true ∧ latestLive v = true)) ∧
    (v.jobs[k]?.any (fun job => job.pc = .clearFlag) = true →
      isLatest v k = true ∨ latestLive v = false)
  | _ => True

instance (v : ChatViewModel) : Decidable (FlagTracks v) :=
  inferInstanceAs (Decidable (_ = _))

instance (v : ChatViewModel) : (a : Action) → Decidable (KeepsFlag v a)
  | .sendMessage _ => isTrue trivial
  | .stopGeneration => isTrue trivial
  | .job _ _ => inferInstanceAs (Decidable (_ ∧ _))

def TracksLatest (v : ChatViewModel) : Prop :=
  v.responseGenerationJob = if v.jobs = [] then none else some (v.jobs.length - 1)

/-! ## Bodies on the main thread -/

theorem TracksLatest.stopGeneration {v : ChatViewModel} (tracks : TracksLatest v) :
    TracksLatest v.stopGeneration := by
  have sameJob : v.stopGeneration.responseGenerationJob = v.responseGenerationJob := by
    simp only [ChatViewModel.stopGeneration, ChatViewModel.cancelJob]
    split <;> rfl
  have sameLength : v.stopGeneration.jobs.length = v.jobs.length := by
    simp [ChatViewModel.stopGeneration]
  have sameEmpty : v.stopGeneration.jobs = [] ↔ v.jobs = [] := by
    rw [← List.length_eq_zero_iff, sameLength, List.length_eq_zero_iff]
  simp only [TracksLatest, sameJob, sameLength, sameEmpty]
  exact tracks

theorem TracksLatest.latestLive_stopGeneration {v : ChatViewModel} (tracks : TracksLatest v) :
    latestLive v.stopGeneration = false := by
  rw [TracksLatest] at tracks
  by_cases none : v.jobs = []
  · rw [if_pos none] at tracks
    simp [latestLive, ChatViewModel.stopGeneration, ChatViewModel.cancelJob,
      ChatViewModel.setFlag, tracks, none]
  · rw [if_neg none] at tracks
    have inside : v.jobs.length - 1 < v.jobs.length := by
      have := List.length_pos_iff.mpr none
      omega
    simp [latestLive, ChatViewModel.stopGeneration, ChatViewModel.cancelJob,
      ChatViewModel.setFlag, tracks, List.getLast?_eq_getElem?, inside, Job.isLive]

theorem latestLive_getTalkerResponse (query : KString) (v : ChatViewModel) :
    latestLive (v.getTalkerResponse query) = true := by
  simp [latestLive, ChatViewModel.getTalkerResponse, Job.isLive, Job.isEnded]

theorem tracksLatest_getTalkerResponse (query : KString) (v : ChatViewModel) :
    TracksLatest (v.getTalkerResponse query) := by
  simp [TracksLatest, ChatViewModel.getTalkerResponse]

theorem flagTracks_stopGeneration {v : ChatViewModel} (tracks : TracksLatest v) :
    FlagTracks v.stopGeneration := by
  have cleared : v.stopGeneration.isGenerating = false := by
    simp only [ChatViewModel.stopGeneration, ChatViewModel.cancelJob]
    split <;> rfl
  rw [FlagTracks, cleared, tracks.latestLive_stopGeneration]

theorem TracksLatest.sendMessage {v : ChatViewModel} (tracks : TracksLatest v)
    (message : KString) : TracksLatest (v.sendMessage message) := by
  apply ChatViewModel.sendMessage_keeps message tracks tracks.stopGeneration
  intro u _
  exact tracksLatest_getTalkerResponse message _

theorem flagTracks_sendMessage {v : ChatViewModel} (tracks : TracksLatest v)
    (flag : FlagTracks v) (message : KString) : FlagTracks (v.sendMessage message) := by
  apply ChatViewModel.sendMessage_keeps message flag (flagTracks_stopGeneration tracks)
  intro u _
  rw [FlagTracks, latestLive_getTalkerResponse]
  rfl

/-! ## A step of a job -/

theorem Job.Steps.live {flag : Bool} {lastIndex : Nat} {job job' : Job} {event : JobEvent}
    {effect : Effect} (taken : job.Steps flag lastIndex event job' effect) :
    (job.pc ≠ .clearFlag ∧ event = .throws ∧ job'.isLive = false ∧ effect ≠ .clearFlag) ∨
    (job.pc = .clearFlag ∧ event ≠ .throws ∧ job'.isLive = false ∧ effect = .clearFlag) ∨
    (job.pc ≠ .clearFlag ∧ event ≠ .throws ∧ job'.isLive = job.isLive ∧
      effect ≠ .clearFlag) := by
  have liveMove : ∀ pc : JobPc, (∀ how, job.pc ≠ .ended how) → (∀ how, pc ≠ .ended how) →
      (job.moveTo pc).isLive = job.isLive := by
    intro pc before after
    have notEnded : job.isEnded = false := by
      unfold isEnded
      split
      · rename_i how ended
        exact absurd ended (before how)
      · rfl
    have stays : (job.moveTo pc).isEnded = false := by
      unfold isEnded
      split
      · rename_i how ended
        exact absurd ended (after how)
      · rfl
    rw [isLive, isLive, notEnded, stays]
    rfl
  cases taken with
  | startThrows pc | sampleThrows pc | stopThrows pc =>
      exact Or.inl ⟨by simp [pc], rfl, rfl, by simp⟩
  | clearFlag pc => exact Or.inr (Or.inl ⟨pc, by simp, rfl, rfl⟩)
  | dropped pc stopped | emitCancelled chunk pc stopped | delayCancelled chunk i pc stopped =>
      exact Or.inr (Or.inr ⟨by simp [pc], by simp, by simp [isLive, moveTo, stopped], by simp⟩)
  | emit chunk pc active =>
      exact Or.inr (Or.inr ⟨by simp [pc], by simp, by simp [isLive, isEnded, pc], by simp⟩)
  | start pc | sample text pc | sampleEnd pc | checked chunk i pc | typedOut chunk i pc
  | readIndex chunk i pc | write chunk i index pc | delay chunk i pc | stop pc =>
      exact Or.inr (Or.inr ⟨by simp [pc], by simp, liveMove _ (by simp [pc]) (by simp),
        by simp⟩)

theorem latestLive_afterJob {v : ChatViewModel} {k : Nat} (inside : k < v.jobs.length)
    (job' : Job) (effect : Effect) :
    latestLive (v.afterJob k job' effect) =
      if isLatest v k then job'.isLive else latestLive v := by
  simp only [latestLive, ChatViewModel.afterJob_jobs, isLatest, List.getLast?_eq_getElem?,
    List.length_set, decide_eq_true_eq]
  split
  · rename_i latest
    rw [show v.jobs.length - 1 = k by omega, List.getElem?_set_self inside]
    rfl
  · rename_i older
    rw [List.getElem?_set_ne (by omega)]

/-- A job's step keeps the flag right exactly when it meets the condition. -/
theorem flagTracks_stepJob_iff {v w : ChatViewModel} (flag : FlagTracks v) {k : Nat}
    {event : JobEvent} (taken : v.stepJob k event = some w) :
    FlagTracks w ↔ KeepsFlag v (.job k event) := by
  obtain ⟨job, job', effect, found, steps, rfl⟩ := ChatViewModel.stepJob_cases taken
  have inside : k < v.jobs.length := (List.getElem?_eq_some_iff.mp found).1
  rw [FlagTracks] at flag
  rw [FlagTracks, latestLive_afterJob inside, ChatViewModel.afterJob_isGenerating, KeepsFlag,
    found, Option.any_some, decide_eq_true_eq, flag]
  rcases steps.live with ⟨pc, throws, ended, effect⟩ | ⟨pc, event, ended, effect⟩ |
    ⟨pc, event, same, effect⟩
  · rw [if_neg effect, ended]
    cases latest : isLatest v k <;> cases live : latestLive v <;> simp [pc, throws]
  · rw [if_pos effect, ended]
    cases latest : isLatest v k <;> cases live : latestLive v <;> simp [pc, event]
  · have unchanged : (if isLatest v k = true then job'.isLive else latestLive v) =
        latestLive v := by
      split
      · rename_i latest
        have last : v.jobs.getLast? = some job := by
          rw [List.getLast?_eq_getElem?, ← found]
          congr 1
          simp only [isLatest, decide_eq_true_eq] at latest
          omega
        rw [same, latestLive, last, Option.any_some]
      · rfl
    rw [if_neg effect, unchanged]
    simp [pc, event]

theorem tracksLatest_step {v w : ChatViewModel} {a : Action} (tracks : TracksLatest v)
    (taken : step v a = some w) : TracksLatest w := by
  cases a with
  | sendMessage message =>
      cases taken
      exact tracks.sendMessage message
  | stopGeneration =>
      cases taken
      exact tracks.stopGeneration
  | job k event =>
      obtain ⟨job, job', effect, _, _, rfl⟩ := ChatViewModel.stepJob_cases taken
      have sameEmpty : v.jobs.set k job' = [] ↔ v.jobs = [] := List.set_eq_nil_iff k job'
      simp only [TracksLatest, ChatViewModel.afterJob_responseGenerationJob,
        ChatViewModel.afterJob_jobs, List.length_set, sameEmpty]
      exact tracks

theorem flagTracks_step_iff {v w : ChatViewModel} {a : Action} (tracks : TracksLatest v)
    (flag : FlagTracks v) (taken : step v a = some w) : FlagTracks w ↔ KeepsFlag v a := by
  cases a with
  | sendMessage message =>
      cases taken
      exact ⟨fun _ => trivial, fun _ => flagTracks_sendMessage tracks flag message⟩
  | stopGeneration =>
      cases taken
      exact ⟨fun _ => trivial, fun _ => flagTracks_stopGeneration tracks⟩
  | job k event => exact flagTracks_stepJob_iff flag taken

/-- The flag tracks the latest job throughout a run exactly when no native call
throws in the latest live job and no job clears the flag while a later one is
live. -/
theorem flagTracks_iff (actions : List Action) :
    Visits step FlagTracks ChatViewModel.init actions ↔
      StepsMeet step KeepsFlag ChatViewModel.init actions :=
  visits_iff_stepsMeet (fun _ _ _ tracks taken => tracksLatest_step tracks taken)
    (fun _ _ _ tracks flag taken => flagTracks_step_iff tracks flag taken) rfl rfl

/-- The flag stays set after the only job ended with an exception, and a job
that was stopped at its end clears it when the next one runs. -/
theorem not_flagTracks :
    ¬ Visits step FlagTracks ChatViewModel.init
        [.sendMessage (kstring "a"), .job 0 .run, .job 0 .throws] ∧
      ¬ Visits step FlagTracks ChatViewModel.init
        [.sendMessage (kstring "a"), .job 0 .run, .job 0 (.returns endMarker), .job 0 .run,
          .stopGeneration, .sendMessage (kstring "b"), .job 0 .run] := by
  decide

end MineGPT.Ui
