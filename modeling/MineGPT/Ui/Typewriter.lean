import MineGPT.Ui.Bubbles

/-!
# The typewriter

For the character `i` of a chunk a job writes the reply without the last
`length - i` characters, so the last character of the reply is never among what
is written.  The text a turn leaves behind is the whole reply only when that is
empty.
-/

set_option autoImplicit false

namespace MineGPT.Ui

open MineGPT.Lib.Machine MineGPT.Lib.Components

def JobEvent.chunks : JobEvent → List KString
  | .returns text => if text = endMarker then [] else [text]
  | _ => []

def chunksOf (k : Nat) (actions : List FineAction) : List KString :=
  actions.flatMap fun
    | .job j event => if j = k then event.chunks else []
    | _ => []

/-- The text of the last write; a bubble starts out empty. -/
def lastText (writes : List BubbleWrite) : KString :=
  (writes.getLast?.map BubbleWrite.text).getD []

/-- The text that the writes of job `k` left in its bubble. -/
def textLeft (k : Nat) (view : ChatViewModel) : KString :=
  lastText (view.bubbleWrites.filter fun written => written.job = k)

/-! ## One job -/

def Job.pendingChunk (job : Job) : KString :=
  match job.pc with
  | .emit chunk => chunk
  | _ => []

/-- The chunk that is typed is part of the reply, and the character to be typed
is one of its own. -/
def Job.TypesChunk (job : Job) : Prop :=
  match job.pc with
  | .check chunk _ => chunk.length ≤ job.responseContent.length
  | .delay chunk _ => chunk.length ≤ job.responseContent.length
  | .lastIndex chunk i => chunk.length ≤ job.responseContent.length ∧ i < chunk.length
  | .write chunk i _ => chunk.length ≤ job.responseContent.length ∧ i < chunk.length
  | _ => True

structure Job.Tracks (chunks : List KString) (left : KString) (job : Job) : Prop where
  received : job.pc ≠ .ended .cancelled →
    chunks.flatten = job.responseContent ++ job.pendingChunk
  behind : left = [] ∨ left.length < job.responseContent.length
  types : job.TypesChunk

def Effect.text (left : KString) : Effect → KString
  | .write _ text => text
  | _ => left

theorem Job.typed_length_lt {job : Job} {chunk : KString} {i : Nat}
    (part : chunk.length ≤ job.responseContent.length) (inside : i < chunk.length) :
    (job.typed chunk i).length < job.responseContent.length := by
  rw [typed, List.length_take]
  omega

theorem Job.Steps.tracks {flag : Bool} {lastIndex : Nat} {job job' : Job} {event : JobEvent}
    {effect : Effect} (taken : job.Steps flag lastIndex event job' effect)
    {chunks : List KString} {left : KString} (tracks : job.Tracks chunks left) :
    job'.Tracks (chunks ++ event.chunks) (effect.text left) := by
  obtain ⟨received, behind, types⟩ := tracks
  cases taken with
  | sample text pc goesOn =>
      refine ⟨fun _ => ?_, behind, trivial⟩
      simp [received (by simp [pc]), pendingChunk, pc, moveTo, JobEvent.chunks, goesOn]
  | emit chunk pc active =>
      refine ⟨fun _ => ?_, ?_, ?_⟩
      · simp [received (by simp [pc]), pendingChunk, pc, JobEvent.chunks]
      · simp only [Effect.text, List.length_append]
        exact behind.imp_right fun shorter => by omega
      · simp [TypesChunk]
  | checked chunk i pc inside generating =>
      simp only [TypesChunk, pc] at types
      exact ⟨fun _ => by simpa [pendingChunk, pc, moveTo, JobEvent.chunks] using received,
        behind, types, inside⟩
  | readIndex chunk i pc =>
      simp only [TypesChunk, pc] at types
      exact ⟨fun _ => by simpa [pendingChunk, pc, moveTo, JobEvent.chunks] using received,
        behind, types⟩
  | write chunk i index pc =>
      simp only [TypesChunk, pc] at types
      exact ⟨fun _ => by simpa [pendingChunk, pc, moveTo, JobEvent.chunks] using received,
        Or.inr (typed_length_lt types.1 types.2), types.1⟩
  | delay chunk i pc active =>
      simp only [TypesChunk, pc] at types
      exact ⟨fun _ => by simpa [pendingChunk, pc, moveTo, JobEvent.chunks] using received,
        behind, types⟩
  | dropped pc stopped | emitCancelled chunk pc stopped | delayCancelled chunk i pc stopped =>
      exact ⟨fun other => absurd rfl other, behind, trivial⟩
  | start pc | startThrows pc | sampleEnd pc | sampleThrows pc | typedOut chunk i pc | stop pc
  | stopThrows pc | clearFlag pc =>
      exact ⟨fun _ => by simpa [pendingChunk, pc, moveTo, JobEvent.chunks] using received,
        behind, trivial⟩

/-! ## All jobs -/

theorem chunksOf_concat (k : Nat) (past : List FineAction) (a : FineAction) :
    chunksOf k (past ++ [a]) = chunksOf k past ++ chunksOf k [a] := by
  simp [chunksOf]

theorem chunksOf_job (k j : Nat) (event : JobEvent) :
    chunksOf k [.job j event] = if j = k then event.chunks else [] := by
  simp [chunksOf]

theorem lastText_concat (writes : List BubbleWrite) (written : BubbleWrite) :
    lastText (writes ++ [written]) = written.text := by
  simp [lastText]

theorem textLeft_afterJob (k j : Nat) (job : Job) (effect : Effect) (v : ChatViewModel) :
    textLeft k (v.afterJob j job effect) =
      if j = k then effect.text (textLeft k v) else textLeft k v := by
  rw [textLeft, ChatViewModel.afterJob_bubbleWrites, List.filter_append]
  cases effect with
  | write index text =>
      by_cases here : j = k
      · simp [Effect.bubbleWrites, here, lastText_concat, Effect.text]
      · simp [Effect.bubbleWrites, here, textLeft]
  | none | native call | clearFlag => simp [Effect.bubbleWrites, Effect.text, textLeft]

/-- Every job agrees with what it received and wrote so far, and nothing was
received or written for a job that is not there yet. -/
structure Follows (past : List FineAction) (s : FineState) : Prop where
  launched : ∀ k job, s.view.jobs[k]? = some job →
    Job.Tracks (chunksOf k past) (textLeft k s.view) job
  absent : ∀ k, s.view.jobs[k]? = none → chunksOf k past = [] ∧ textLeft k s.view = []

theorem Follows.job {past : List FineAction} {s : FineState} (follows : Follows past s) {j : Nat}
    {event : JobEvent} {w : ChatViewModel} (taken : s.view.stepJob j event = some w) :
    Follows (past ++ [.job j event]) { s with view := w } := by
  obtain ⟨job, job', effect, found, steps, rfl⟩ := ChatViewModel.stepJob_cases taken
  have inside : j < s.view.jobs.length := (List.getElem?_eq_some_iff.mp found).1
  constructor
  · intro k other there
    simp only [ChatViewModel.afterJob_jobs] at there
    simp only [chunksOf_concat, chunksOf_job, textLeft_afterJob]
    rcases getElem?_set_cases there with ⟨rfl, rfl⟩ | ⟨here, there⟩
    · simp only [if_true]
      exact steps.tracks (follows.launched j job found)
    · simp only [here, if_false, List.append_nil]
      exact follows.launched k other there
  · intro k missing
    simp only [ChatViewModel.afterJob_jobs] at missing
    have apart : j ≠ k := by
      rintro rfl
      rw [List.getElem?_set_self inside] at missing
      simp at missing
    rw [List.getElem?_set_ne apart] at missing
    simp only [chunksOf_concat, chunksOf_job, textLeft_afterJob, apart, if_false, List.append_nil]
    exact follows.absent k missing

theorem Follows.keep {past : List FineAction} {s t : FineState} (follows : Follows past s)
    {a : FineAction} (other : ∀ k, chunksOf k [a] = [])
    (writes : t.view.bubbleWrites = s.view.bubbleWrites)
    (jobs : ∀ k : Nat, ∃ mark : Job → Job, t.view.jobs[k]? = s.view.jobs[k]?.map mark ∧
      ∀ job, (mark job).pc = job.pc ∧ (mark job).responseContent = job.responseContent) :
    Follows (past ++ [a]) t := by
  constructor
  · intro k job' found
    obtain ⟨mark, same, kept⟩ := jobs k
    rw [same, Option.map_eq_some_iff] at found
    obtain ⟨job, old, rfl⟩ := found
    obtain ⟨received, behind, types⟩ := follows.launched k job old
    obtain ⟨pc, content⟩ := kept job
    rw [chunksOf_concat, other, List.append_nil, textLeft, writes]
    refine ⟨?_, ?_, ?_⟩
    · rw [pc, content, Job.pendingChunk, pc]
      exact received
    · rw [content]
      exact behind
    · rw [Job.TypesChunk, pc, content]
      exact types
  · intro k missing
    obtain ⟨mark, same, _⟩ := jobs k
    rw [same, Option.map_eq_none_iff] at missing
    rw [chunksOf_concat, other, List.append_nil, textLeft, writes]
    exact follows.absent k missing

theorem Follows.keepJobs {past : List FineAction} {s t : FineState} (follows : Follows past s)
    {a : FineAction} (other : ∀ k, chunksOf k [a] = [])
    (writes : t.view.bubbleWrites = s.view.bubbleWrites)
    (jobs : t.view.jobs = s.view.jobs) : Follows (past ++ [a]) t :=
  follows.keep other writes fun k =>
    ⟨id, by rw [jobs, Option.map_id, id], fun _ => ⟨rfl, rfl⟩⟩

theorem Follows.launch {past : List FineAction} {view : ChatViewModel} {message : KString}
    (follows : Follows past { view := view, main := .launch message }) :
    Follows (past ++ [.main]) { view := view.getTalkerResponse message, main := .idle } := by
  have none : ∀ k, chunksOf k [.main] = [] := fun _ => rfl
  constructor
  · intro k job found
    simp only [ChatViewModel.getTalkerResponse] at found
    rw [chunksOf_concat, none, List.append_nil]
    rcases getElem?_concat_cases found with old | ⟨rfl, rfl⟩
    · exact follows.launched k job old
    · obtain ⟨chunks, left⟩ := follows.absent _ (List.getElem?_eq_none (Nat.le_refl _))
      rw [chunks]
      exact ⟨fun _ => rfl, Or.inl left, trivial⟩
  · intro k missing
    rw [chunksOf_concat, none, List.append_nil]
    rw [List.getElem?_eq_none_iff] at missing
    simp only [ChatViewModel.getTalkerResponse, List.length_append] at missing
    have outside : view.jobs.length ≤ k := by omega
    exact follows.absent k (List.getElem?_eq_none outside)

theorem Follows.cancelJob {past : List FineAction} {view : ChatViewModel} {before main : MainPc}
    (follows : Follows past { view := view, main := before }) :
    Follows (past ++ [.main]) { view := view.cancelJob, main := main } := by
  exact follows.keep (fun _ => rfl) view.cancelJob_bubbleWrites fun k =>
    ⟨_, ChatViewModel.cancelJob_getElem? view k, fun job => by split <;> exact ⟨rfl, rfl⟩⟩

theorem Follows.main {past : List FineAction} {s t : FineState} (follows : Follows past s)
    (taken : mainStep s.view s.main = some t) : Follows (past ++ [.main]) t := by
  obtain ⟨view, main⟩ := s
  cases main with
  | idle => simp [mainStep] at taken
  | addUser message =>
      simp only [mainStep] at taken
      split at taken <;> cases taken <;> exact follows.keepJobs (fun _ => rfl) rfl rfl
  | cancelJob next =>
      cases taken
      exact follows.cancelJob
  | launch message =>
      cases taken
      exact follows.launch
  | readFlag message | clearFlag next | addBubble message | setFlag message =>
      cases taken
      exact follows.keepJobs (fun _ => rfl) rfl rfl

theorem Follows.fineStep {past : List FineAction} {s t : FineState} {a : FineAction}
    (follows : Follows past s) (taken : fineStep s a = some t) : Follows (past ++ [a]) t := by
  cases fineSteps_of_fineStep taken with
  | callSendMessage | callStopGeneration => exact follows.keepJobs (fun _ => rfl) rfl rfl
  | main taken => exact follows.main taken
  | job k event stepped => exact follows.job stepped

/-- A turn that ends with the end marker leaves its whole reply in the bubble
exactly when the reply is empty. -/
theorem textLeft_eq_reply_iff {actions : List FineAction} {s : FineState}
    (run : runSteps MineGPT.Ui.fineStep FineState.init actions = some s) {k : Nat} {job : Job}
    (found : s.view.jobs[k]? = some job) (ended : job.pc = .ended .completed) :
    textLeft k s.view = (chunksOf k actions).flatten ↔ (chunksOf k actions).flatten = [] := by
  have start : Follows [] FineState.init := by
    constructor
    · intro k job found
      simp [FineState.init, ChatViewModel.init] at found
    · intro k _
      exact ⟨rfl, rfl⟩
  have follows := runSteps_history (fun _ _ _ _ before taken => before.fineStep taken) start run
  have tracks := follows.launched k job found
  have received := tracks.received (by simp [ended])
  simp only [List.nil_append, Job.pendingChunk, ended, List.append_nil] at received tracks
  constructor
  · intro whole
    rcases tracks.behind with nothing | shorter
    · rw [← whole, nothing]
    · rw [whole, received] at shorter
      exact absurd shorter (Nat.lt_irrefl _)
  · intro empty
    rcases tracks.behind with nothing | shorter
    · rw [nothing, empty]
    · rw [← received, empty] at shorter
      exact absurd shorter (Nat.not_lt_zero _)

def wholeTurn : List FineAction :=
  [.callSendMessage (kstring "Hi"), .main, .main, .main, .main, .main, .job 0 .run,
    .job 0 (.returns (kstring "ok")), .job 0 .run,
    .job 0 .run, .job 0 .run, .job 0 .run, .job 0 .run,
    .job 0 .run, .job 0 .run, .job 0 .run, .job 0 .run,
    .job 0 .run, .job 0 (.returns endMarker), .job 0 .run, .job 0 .run]

def wholeTurnEnd : FineState := (runSteps MineGPT.Ui.fineStep FineState.init wholeTurn).getD .init

def wholeTurnJob : Job :=
  { query := kstring "Hi", responseContent := kstring "ok", pc := .ended .completed
    cancelled := false }

theorem textLeft_eq_reply_iff_ok :
    textLeft 0 wholeTurnEnd.view = (chunksOf 0 wholeTurn).flatten ↔
      (chunksOf 0 wholeTurn).flatten = [] := by
  have found : wholeTurnEnd.view.jobs[0]? = some wholeTurnJob := by decide +kernel
  exact textLeft_eq_reply_iff (by decide +kernel) found rfl

/-- The turn is not stopped, and its bubble reads `o`. -/
theorem textLeft_ne_reply_ok :
    runSteps MineGPT.Ui.fineStep FineState.init wholeTurn = some wholeTurnEnd ∧
      wholeTurnEnd.view.jobs[0]? = some wholeTurnJob ∧
      wholeTurnEnd.view.currentChatMessages =
        [{ message := kstring "Hi", isUser := true }, { message := kstring "o", isUser := false }] ∧
      (chunksOf 0 wholeTurn).flatten = kstring "ok" ∧
      textLeft 0 wholeTurnEnd.view ≠ (chunksOf 0 wholeTurn).flatten := by
  decide +kernel

end MineGPT.Ui
