import MineGPT.Lib.Components
import MineGPT.Ui.ViewModel

/-!
# Bubbles

A job writes to the last entry of the message list.  That is its own bubble as
long as nothing was added behind it, and `sendMessage` adds two entries between
any two steps of an earlier job.  So the bubbles stay apart in every run in
which each job reads `lastIndex` while its bubble is the last entry.

Here the main thread takes its steps one by one as well.
-/

set_option autoImplicit false

namespace MineGPT.Ui

open MineGPT.Lib.Machine MineGPT.Lib.Components

/-- The list of a conversation: each question with its reply, and possibly a
last question whose bubble is about to be added. -/
def conversation : List KString → List KString → List ChatMessage
  | question :: questions, reply :: replies =>
    { message := question, isUser := true } :: { message := reply, isUser := false } ::
      conversation questions replies
  | question :: _, [] => [{ message := question, isUser := true }]
  | [], _ => []

/-- The questions asked so far: those of the jobs, and the one being sent. -/
def questions (s : FineState) : List KString :=
  s.view.jobs.map Job.query ++
    match s.main with
    | .addBubble message => [message]
    | .setFlag message => [message]
    | .launch message => [message]
    | _ => []

/-- The list is a conversation over the questions, every job wrote to its own
bubble only, and what it wrote is the beginning of what it received. -/
structure BubblesApart (s : FineState) : Prop where
  list : ∃ replies, s.view.currentChatMessages = conversation (questions s) replies ∧
    (replies.length = (questions s).length ∨ replies.length + 1 = (questions s).length)
  own : ∀ written ∈ s.view.bubbleWrites, written.index = 2 * written.job + 1
  begins : ∀ written ∈ s.view.bubbleWrites, ∃ job, s.view.jobs[written.job]? = some job ∧
    written.text <+: job.responseContent

def Job.readsIndex (job : Job) : Bool :=
  match job.pc with
  | .lastIndex _ _ => true
  | _ => false

/-- The condition on a step: a job reads `lastIndex` while its bubble is the
last entry. -/
def ReadsOwnBubble (s : FineState) : FineAction → Prop
  | .job k _ => s.view.jobs[k]?.any Job.readsIndex = true →
    s.view.currentChatMessages.length = 2 * k + 2
  | _ => True

instance (s : FineState) : (a : FineAction) → Decidable (ReadsOwnBubble s a)
  | .callSendMessage _ => isTrue trivial
  | .callStopGeneration => isTrue trivial
  | .main => isTrue trivial
  | .job _ _ => inferInstanceAs (Decidable (_ → _))

/-! ## Conversations -/

theorem conversation_ask {questions replies : List KString} (question : KString)
    (full : replies.length = questions.length) :
    conversation (questions ++ [question]) replies =
      conversation questions replies ++ [{ message := question, isUser := true }] := by
  induction questions generalizing replies with
  | nil =>
      rw [List.length_nil, List.length_eq_zero_iff] at full
      subst full
      rfl
  | cons first questions ih =>
      cases replies with
      | nil => simp at full
      | cons reply replies =>
          simp only [List.length_cons, Nat.add_right_cancel_iff] at full
          simp only [List.cons_append, conversation, ih full]

theorem conversation_reply {questions replies : List KString} (reply : KString)
    (waiting : replies.length + 1 = questions.length) :
    conversation questions (replies ++ [reply]) =
      conversation questions replies ++ [{ message := reply, isUser := false }] := by
  induction questions generalizing replies with
  | nil => simp at waiting
  | cons question questions ih =>
      cases replies with
      | nil =>
          simp only [List.length_cons, List.length_nil, Nat.add_right_cancel_iff] at waiting
          rw [List.length_eq_zero_iff.mp waiting.symm]
          rfl
      | cons first replies =>
          simp only [List.length_cons, Nat.add_right_cancel_iff] at waiting
          simp only [List.cons_append, conversation, ih waiting]

theorem conversation_set {questions replies : List KString} (text : KString) {k : Nat}
    (inside : k < replies.length) :
    (conversation questions replies).set (2 * k + 1) { message := text, isUser := false } =
      conversation questions (replies.set k text) := by
  induction questions generalizing replies k with
  | nil => cases replies <;> simp [conversation]
  | cons question questions ih =>
      cases replies with
      | nil => simp at inside
      | cons reply replies =>
          cases k with
          | zero => rfl
          | succ k =>
              simp only [List.length_cons, Nat.add_lt_add_iff_right] at inside
              rw [show 2 * (k + 1) + 1 = 2 * k + 1 + 1 + 1 by omega]
              simp only [conversation, List.set_cons_succ, ih inside]

/-! ## The invariant -/

def awaiting : MainPc → Nat
  | .addBubble _ => 1
  | _ => 0

structure Typing (s : FineState) : Prop where
  list : ∃ replies, s.view.currentChatMessages = conversation (questions s) replies ∧
    replies.length + awaiting s.main = (questions s).length
  own : ∀ written ∈ s.view.bubbleWrites, written.index = 2 * written.job + 1
  begins : ∀ written ∈ s.view.bubbleWrites, ∃ job, s.view.jobs[written.job]? = some job ∧
    written.text <+: job.responseContent
  indices : ∀ k job, s.view.jobs[k]? = some job → ∀ chunk i index,
    job.pc = .write chunk i index → index = 2 * k + 1

theorem Typing.bubblesApart {s : FineState} (typing : Typing s) : BubblesApart s where
  list := by
    obtain ⟨replies, list, count⟩ := typing.list
    refine ⟨replies, list, ?_⟩
    unfold awaiting at count
    split at count
    · exact Or.inr count
    · exact Or.inl count
  own := typing.own
  begins := typing.begins

theorem Job.Steps.typing {flag : Bool} {lastIndex : Nat} {job job' : Job} {event : JobEvent}
    {effect : Effect} (taken : job.Steps flag lastIndex event job' effect) :
    job'.query = job.query ∧ job.responseContent <+: job'.responseContent ∧
    (∀ chunk i index, job'.pc = .write chunk i index →
      job.readsIndex = true ∧ index = lastIndex) ∧
    ∀ index text, effect = .write index text →
      (∃ chunk i, job.pc = .write chunk i index) ∧ text <+: job.responseContent := by
  cases taken with
  | emit chunk pc => exact ⟨rfl, List.prefix_append _ _, by simp, by simp⟩
  | readIndex chunk i pc =>
      refine ⟨rfl, List.prefix_refl _, ?_, by simp⟩
      intro chunk' i' index moved
      simp only [moveTo, JobPc.write.injEq] at moved
      exact ⟨by simp [readsIndex, pc], moved.2.2.symm⟩
  | write chunk i index pc =>
      refine ⟨rfl, List.prefix_refl _, by simp [moveTo], ?_⟩
      intro index' text same
      simp only [Effect.write.injEq] at same
      obtain ⟨rfl, rfl⟩ := same
      exact ⟨⟨chunk, i, pc⟩, List.take_prefix _ _⟩
  | start pc | startThrows pc | dropped pc | sample text pc | sampleEnd pc | sampleThrows pc
  | emitCancelled chunk pc | checked chunk i pc | typedOut chunk i pc | delay chunk i pc
  | delayCancelled chunk i pc | stop pc | stopThrows pc | clearFlag pc =>
      exact ⟨rfl, List.prefix_refl _, by simp [moveTo], by simp⟩

theorem questions_afterJob {s : FineState} {k : Nat} {job job' : Job}
    (found : s.view.jobs[k]? = some job) (query : job'.query = job.query) (effect : Effect) :
    questions { s with view := s.view.afterJob k job' effect } = questions s := by
  have same : (s.view.jobs.set k job').map Job.query = s.view.jobs.map Job.query := by
    apply List.ext_getElem?
    intro i
    rw [List.getElem?_map, List.getElem?_map]
    by_cases here : k = i
    · subst here
      have inside : k < s.view.jobs.length := (List.getElem?_eq_some_iff.mp found).1
      rw [List.getElem?_set_self inside, found, Option.map_some, Option.map_some, query]
    · rw [List.getElem?_set_ne here]
  simp only [questions, ChatViewModel.afterJob_jobs, same]

theorem jobs_le_replies {s : FineState} {replies : List KString}
    (count : replies.length + awaiting s.main = (questions s).length) :
    s.view.jobs.length ≤ replies.length := by
  simp only [questions, List.length_append, List.length_map] at count
  unfold awaiting at count
  split at count <;> split at count <;> simp_all

theorem written_afterJob {v : ChatViewModel} {k : Nat} {job' : Job} {effect : Effect}
    {written : BubbleWrite} (made : written ∈ (v.afterJob k job' effect).bubbleWrites) :
    written ∈ v.bubbleWrites ∨
      ∃ index text, effect = .write index text ∧
        written = { job := k, index := index, text := text } := by
  rw [ChatViewModel.afterJob_bubbleWrites] at made
  rcases List.mem_append.mp made with old | new
  · exact Or.inl old
  · cases effect with
    | write index text => exact Or.inr ⟨index, text, rfl, List.mem_singleton.mp new⟩
    | none | native call | clearFlag => simp [Effect.bubbleWrites] at new

theorem Typing.list_afterJob {s : FineState} (typing : Typing s) {k : Nat} {job job' : Job}
    (found : s.view.jobs[k]? = some job) {effect : Effect}
    (owned : ∀ index text, effect = .write index text → index = 2 * k + 1) :
    ∃ replies,
      (s.view.afterJob k job' effect).currentChatMessages = conversation (questions s) replies ∧
      replies.length + awaiting s.main = (questions s).length := by
  obtain ⟨replies, list, count⟩ := typing.list
  cases effect with
  | write index text =>
      have inside : k < s.view.jobs.length := (List.getElem?_eq_some_iff.mp found).1
      have behind := jobs_le_replies count
      refine ⟨replies.set k text, ?_, by rw [List.length_set]; exact count⟩
      rw [← conversation_set text (by omega), ← list, ← owned index text rfl]
      rfl
  | none | native call | clearFlag => exact ⟨replies, list, count⟩

theorem Typing.job {s : FineState} (typing : Typing s) {k : Nat} {event : JobEvent}
    (own : ReadsOwnBubble s (.job k event)) {w : ChatViewModel}
    (taken : s.view.stepJob k event = some w) : Typing { s with view := w } := by
  obtain ⟨job, job', effect, found, steps, rfl⟩ := ChatViewModel.stepJob_cases taken
  obtain ⟨query, grows, reads, writes⟩ := steps.typing
  have inside : k < s.view.jobs.length := (List.getElem?_eq_some_iff.mp found).1
  have owned : ∀ index text, effect = .write index text → index = 2 * k + 1 := by
    intro index text written
    obtain ⟨⟨chunk, i, pc⟩, _⟩ := writes index text written
    exact typing.indices k job found chunk i index pc
  refine ⟨?_, ?_, ?_, ?_⟩
  · rw [questions_afterJob found query]
    exact typing.list_afterJob found owned
  · intro written made
    rcases written_afterJob made with old | ⟨index, text, wrote, rfl⟩
    · exact typing.own written old
    · exact owned index text wrote
  · intro written made
    simp only [ChatViewModel.afterJob_jobs]
    rcases written_afterJob made with old | ⟨index, text, wrote, rfl⟩
    · obtain ⟨writer, launched, begins⟩ := typing.begins written old
      by_cases here : k = written.job
      · rw [← here, found, Option.some.injEq] at launched
        rw [← here, List.getElem?_set_self inside]
        exact ⟨job', rfl, (launched ▸ begins).trans grows⟩
      · rw [List.getElem?_set_ne here]
        exact ⟨writer, launched, begins⟩
    · simp only [List.getElem?_set_self inside]
      exact ⟨job', rfl, (writes index text wrote).2.trans grows⟩
  · intro j other there chunk i index pc
    simp only [ChatViewModel.afterJob_jobs] at there
    rcases getElem?_set_cases there with ⟨rfl, rfl⟩ | ⟨_, there⟩
    · obtain ⟨reading, same⟩ := reads chunk i index pc
      have last := own (by rw [found, Option.any_some]; exact reading)
      rw [same, ChatViewModel.lastIndex]
      omega
    · exact typing.indices j other there chunk i index pc

/-! ## The main thread -/

theorem Typing.keep {s t : FineState} (typing : Typing s)
    (list : t.view.currentChatMessages = s.view.currentChatMessages)
    (asked : questions t = questions s) (waits : awaiting t.main = awaiting s.main)
    (writes : t.view.bubbleWrites = s.view.bubbleWrites)
    (jobs : ∀ k : Nat, ∃ mark : Job → Job, t.view.jobs[k]? = s.view.jobs[k]?.map mark ∧
      ∀ job, (mark job).pc = job.pc ∧ (mark job).responseContent = job.responseContent) :
    Typing t where
  list := by
    rw [list, asked, waits]
    exact typing.list
  own := by
    rw [writes]
    exact typing.own
  begins := by
    rw [writes]
    intro written made
    obtain ⟨job, launched, begins⟩ := typing.begins written made
    obtain ⟨mark, same, kept⟩ := jobs written.job
    rw [same, launched]
    exact ⟨mark job, rfl, (kept job).2 ▸ begins⟩
  indices := by
    intro k job' found chunk i index pc
    obtain ⟨mark, same, kept⟩ := jobs k
    rw [same, Option.map_eq_some_iff] at found
    obtain ⟨job, old, rfl⟩ := found
    rw [(kept job).1] at pc
    exact typing.indices k job old chunk i index pc

theorem Typing.keepJobs {s t : FineState} (typing : Typing s)
    (list : t.view.currentChatMessages = s.view.currentChatMessages)
    (asked : questions t = questions s) (waits : awaiting t.main = awaiting s.main)
    (writes : t.view.bubbleWrites = s.view.bubbleWrites)
    (jobs : t.view.jobs = s.view.jobs) : Typing t :=
  typing.keep list asked waits writes fun k =>
    ⟨id, by rw [jobs, Option.map_id, id], fun _ => ⟨rfl, rfl⟩⟩

theorem Typing.cancelJob {view : ChatViewModel} {next : Option KString} {main : MainPc}
    (typing : Typing { view := view, main := .cancelJob next })
    (asked : questions { view := view, main := main } =
      questions { view := view, main := .cancelJob next })
    (waits : awaiting main = 0) : Typing { view := view.cancelJob, main := main } := by
  have queries : view.cancelJob.jobs.map Job.query = view.jobs.map Job.query := by
    apply List.ext_getElem?
    intro i
    rw [List.getElem?_map, List.getElem?_map, ChatViewModel.cancelJob_getElem?, Option.map_map]
    congr 1
    funext job
    simp only [Function.comp_apply]
    split <;> rfl
  refine typing.keep view.cancelJob_currentChatMessages ?_ waits view.cancelJob_bubbleWrites
    fun k => ⟨_, ChatViewModel.cancelJob_getElem? view k, fun job => by split <;> exact ⟨rfl, rfl⟩⟩
  rw [← asked]
  simp only [questions, queries]

theorem Typing.addUser {view : ChatViewModel} {message : KString}
    (typing : Typing { view := view, main := .addUser message }) :
    Typing { view := view.addMessage { message := message, isUser := true }
             main := .addBubble message } where
  list := by
    obtain ⟨replies, list, count⟩ := typing.list
    simp only [questions, List.append_nil, awaiting, Nat.add_zero] at list count
    refine ⟨replies, ?_, ?_⟩
    · simp only [questions, ChatViewModel.addMessage, list]
      exact (conversation_ask message count).symm
    · simp only [questions, ChatViewModel.addMessage, List.length_append, awaiting, count]
      rfl
  own := typing.own
  begins := typing.begins
  indices := typing.indices

theorem Typing.addBubble {view : ChatViewModel} {message : KString}
    (typing : Typing { view := view, main := .addBubble message }) :
    Typing { view := view.addMessage { message := [], isUser := false }
             main := .setFlag message } where
  list := by
    obtain ⟨replies, list, count⟩ := typing.list
    simp only [awaiting] at count
    refine ⟨replies ++ [[]], ?_, ?_⟩
    · refine Eq.trans ?_ (conversation_reply [] count).symm
      rw [← list]
      rfl
    · simp only [List.length_append, List.length_singleton, awaiting]
      exact count
  own := typing.own
  begins := typing.begins
  indices := typing.indices

theorem Typing.launch {view : ChatViewModel} {message : KString}
    (typing : Typing { view := view, main := .launch message }) :
    Typing { view := view.getTalkerResponse message, main := .idle } where
  list := by
    have asked : questions { view := view.getTalkerResponse message, main := .idle } =
        questions { view := view, main := .launch message } := by
      simp [questions, ChatViewModel.getTalkerResponse]
    rw [asked]
    exact typing.list
  own := typing.own
  begins := by
    intro written made
    obtain ⟨job, launched, begins⟩ := typing.begins written made
    have inside := (List.getElem?_eq_some_iff.mp launched).1
    refine ⟨job, ?_, begins⟩
    simpa [ChatViewModel.getTalkerResponse, List.getElem?_append_left inside] using launched
  indices := by
    intro k job found chunk i index pc
    simp only [ChatViewModel.getTalkerResponse] at found
    rcases getElem?_concat_cases found with old | ⟨_, rfl⟩
    · exact typing.indices k job old chunk i index pc
    · cases pc

theorem Typing.main {s t : FineState} (typing : Typing s)
    (taken : mainStep s.view s.main = some t) : Typing t := by
  obtain ⟨view, main⟩ := s
  cases main with
  | idle => simp [mainStep] at taken
  | readFlag message =>
      cases taken
      cases view.isGenerating <;> exact typing.keepJobs rfl rfl rfl rfl rfl
  | clearFlag next =>
      cases taken
      exact typing.keepJobs rfl rfl rfl rfl rfl
  | cancelJob next =>
      cases taken
      cases next <;> exact typing.cancelJob rfl rfl
  | addUser message =>
      simp only [mainStep] at taken
      split at taken
      · cases taken
        exact typing.keepJobs rfl rfl rfl rfl rfl
      · cases taken
        exact typing.addUser
  | addBubble message =>
      cases taken
      exact typing.addBubble
  | setFlag message =>
      cases taken
      exact typing.keepJobs rfl rfl rfl rfl rfl
  | launch message =>
      cases taken
      exact typing.launch

/-! ## Runs -/

theorem Typing.fineStep {s t : FineState} {a : FineAction} (typing : Typing s)
    (own : ReadsOwnBubble s a) (taken : fineStep s a = some t) : Typing t := by
  cases fineSteps_of_fineStep taken with
  | callSendMessage message idle =>
      exact typing.keepJobs rfl (by simp [questions, idle]) (by simp [awaiting, idle]) rfl rfl
  | callStopGeneration idle =>
      exact typing.keepJobs rfl (by simp [questions, idle]) (by simp [awaiting, idle]) rfl rfl
  | main taken => exact typing.main taken
  | job k event stepped => exact typing.job own stepped

def FineState.init : FineState := { view := ChatViewModel.init, main := .idle }

/-- The bubbles stay apart in every run in which each job reads `lastIndex`
while its bubble is the last entry. -/
theorem bubblesApart_of_readsOwnBubble {actions : List FineAction}
    (own : StepsMeet MineGPT.Ui.fineStep ReadsOwnBubble FineState.init actions) :
    Visits MineGPT.Ui.fineStep BubblesApart FineState.init actions := by
  have start : Typing FineState.init := by
    refine ⟨⟨[], rfl, rfl⟩, ?_, ?_, ?_⟩ <;> simp [FineState.init, ChatViewModel.init]
  exact (visits_of_stepsMeet (fun _ _ _ typing guard taken => typing.fineStep guard taken)
    start own).mono fun _ typing => typing.bubblesApart

/-- A message is sent and answered with one chunk of one character, and the flow ends. -/
def completedTurn (k : Nat) (query reply : KString) : List FineAction :=
  [.callSendMessage query, .main, .main, .main, .main, .main, .job k .run,
    .job k (.returns reply), .job k .run, .job k .run, .job k .run, .job k .run, .job k .run,
    .job k .run, .job k (.returns endMarker), .job k .run, .job k .run]

theorem bubblesApart_twoTurns :
    Visits MineGPT.Ui.fineStep BubblesApart FineState.init
      (completedTurn 0 (kstring "a") (kstring "x") ++ completedTurn 1 (kstring "b") (kstring "y")) :=
  bubblesApart_of_readsOwnBubble (by decide +kernel)

/-- One message, sent and answered up to the character the job is about to write. -/
def untilChecked : List FineAction :=
  [.callSendMessage (kstring "a"), .main, .main, .main, .main, .main, .job 0 .run,
    .job 0 (.returns (kstring "x")), .job 0 .run, .job 0 .run]

/-- The job has passed the check when it is stopped and the next message is
sent.  It overwrites that message if it reads `lastIndex` before the next bubble
is added, and writes to the next bubble if it reads `lastIndex` afterwards. -/
theorem not_bubblesApart_stopped :
    ¬ Visits MineGPT.Ui.fineStep BubblesApart FineState.init
        (untilChecked ++ [.callStopGeneration, .main, .main, .callSendMessage (kstring "b"),
          .main, .main, .job 0 .run, .job 0 .run]) ∧
      ¬ Visits MineGPT.Ui.fineStep BubblesApart FineState.init
        (untilChecked ++ [.callStopGeneration, .main, .main, .callSendMessage (kstring "b"),
          .main, .main, .main, .main, .main, .job 0 .run, .job 0 .run]) := by
  have own : ∀ s, BubblesApart s →
      ∀ written ∈ s.view.bubbleWrites, written.index = 2 * written.job + 1 :=
    fun _ apart => apart.own
  refine ⟨fun visits => ?_, fun visits => ?_⟩
  · have bad := visits.mono own
    revert bad
    decide
  · have bad := visits.mono own
    revert bad
    decide

end MineGPT.Ui
