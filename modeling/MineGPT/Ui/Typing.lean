import MineGPT.Ui.Typewriter

/-!
# One character at a time

While a job works alone it types its reply without a gap: the `n`-th text it
writes is the first `n` characters, counted from zero, across the chunks.  When
the flag is cleared it may still write one text, and after that none, so what it
wrote stays an initial part of this sequence.
-/

set_option autoImplicit false

namespace MineGPT.Ui

open MineGPT.Lib.Machine

/-- What can happen to a turn whose job is the only one that runs. -/
inductive TurnEvent where
  | job (event : JobEvent)
  | flagCleared
  | jobCancelled
  deriving DecidableEq, Repr

def turnStep (k : Nat) (v : ChatViewModel) : TurnEvent → Option ChatViewModel
  | .job event => v.stepJob k event
  | .flagCleared => some (v.setFlag false)
  | .jobCancelled => some v.cancelJob

def turnChunks (events : List TurnEvent) : List KString :=
  events.flatMap fun
    | .job event => event.chunks
    | _ => []

/-- A chain of initial parts of the reply that starts with the empty text and
grows by one character each time. -/
structure TypedInOrder (reply : KString) (texts : List KString) : Prop where
  starts : ∀ text ∈ texts.head?, text = []
  part : ∀ text ∈ texts, text <+: reply
  grows : ∀ i text next, texts[i]? = some text → texts[i + 1]? = some next →
    text <+: next ∧ next.length = text.length + 1

theorem typedInOrder_take {reply : KString} {n : Nat} (inside : n ≤ reply.length) :
    TypedInOrder reply ((List.range n).map reply.take) where
  starts := by
    intro text first
    cases n with
    | zero => simp at first
    | succ n => simpa [List.range_succ_eq_map, eq_comm] using first
  part := by
    intro text member
    obtain ⟨i, _, rfl⟩ := List.mem_map.mp member
    exact List.take_prefix i reply
  grows := by
    intro i text next here there
    simp only [List.getElem?_map, Option.map_eq_some_iff] at here there
    obtain ⟨j, at_i, rfl⟩ := here
    obtain ⟨l, at_next, rfl⟩ := there
    rw [List.getElem?_eq_some_iff] at at_i at_next
    obtain ⟨_, rfl⟩ := at_i
    obtain ⟨before, rfl⟩ := at_next
    rw [List.length_range] at before
    simp only [List.getElem_range, List.length_take]
    exact ⟨List.take_prefix_take_left (by omega), by omega⟩

theorem TypedInOrder.mono {reply longer : KString} {texts : List KString}
    (typed : TypedInOrder reply texts) (part : reply <+: longer) : TypedInOrder longer texts :=
  ⟨typed.starts, fun text member => (typed.part text member).trans part, typed.grows⟩

/-! ## One job -/

/-- How far into the reply the typing is, if nothing was left out. -/
def Job.place (job : Job) : Nat :=
  match job.pc with
  | .check chunk i => job.responseContent.length - chunk.length + i
  | .lastIndex chunk i => job.responseContent.length - chunk.length + i
  | .write chunk i _ => job.responseContent.length - chunk.length + i
  | .delay chunk i => job.responseContent.length - chunk.length + i + 1
  | _ => job.responseContent.length

/-- The flag was read for a character that is not written yet. -/
def Job.pastCheck (job : Job) : Bool :=
  match job.pc with
  | .lastIndex _ _ => true
  | .write _ _ _ => true
  | _ => false

def Effect.texts : Effect → List KString
  | .write _ text => [text]
  | _ => []

/-- The job has written these texts.  Without the flag some characters may have
been left out, but then no more are written. -/
structure Job.Typed (flag : Bool) (bubble : Nat) (chunks : List KString) (texts : List KString)
    (job : Job) : Prop where
  tracks : ∃ left, job.Tracks chunks left
  part : job.responseContent <+: chunks.flatten
  texts_eq : texts = (List.range texts.length).map job.responseContent.take
  inside : texts.length ≤ job.responseContent.length
  committed : job.pastCheck = true → texts.length = job.place
  typing : flag = true → job.isEnded = false → texts.length = job.place
  index : ∀ chunk i index, job.pc = .write chunk i index → index = bubble

theorem map_take_append {reply chunk : KString} {n : Nat} (inside : n ≤ reply.length) :
    (List.range n).map (reply ++ chunk).take = (List.range n).map reply.take := by
  apply List.map_congr_left
  intro i member
  have := List.mem_range.mp member
  exact List.take_append_of_le_length (by omega)

theorem Job.Typed.dark {flag : Bool} {bubble : Nat} {chunks texts : List KString} {job : Job}
    (typed : job.Typed flag bubble chunks texts) : job.Typed false bubble chunks texts :=
  { typed with typing := fun bright => absurd bright (by simp) }

theorem Job.Typed.moved {flag : Bool} {bubble : Nat} {chunks more texts : List KString}
    {job job' : Job} (typed : job.Typed flag bubble chunks texts)
    (tracks : ∃ left, job'.Tracks (chunks ++ more) left)
    (content : job'.responseContent = job.responseContent)
    (committed : job'.pastCheck = true → texts.length = job'.place)
    (typing : flag = true → job'.isEnded = false → texts.length = job'.place)
    (index : ∀ chunk i index, job'.pc = .write chunk i index → index = bubble) :
    job'.Typed flag bubble (chunks ++ more) texts where
  tracks := tracks
  part := by
    rw [content, List.flatten_append]
    exact typed.part.trans (List.prefix_append _ _)
  texts_eq := by
    rw [content]
    exact typed.texts_eq
  inside := by
    rw [content]
    exact typed.inside
  committed := committed
  typing := typing
  index := index

/-- The text that is due is the next initial part of the reply. -/
theorem Job.Typed.due {flag : Bool} {bubble : Nat} {chunks texts : List KString} {job : Job}
    (typed : job.Typed flag bubble chunks texts) {chunk : KString} {i index : Nat}
    (pc : job.pc = .write chunk i index) :
    job.typed chunk i = job.responseContent.take texts.length ∧
      texts.length + 1 ≤ job.responseContent.length ∧
      texts.length + 1 = job.responseContent.length - chunk.length + i + 1 := by
  have here := typed.committed (by simp [pastCheck, pc])
  obtain ⟨left, tracks⟩ := typed.tracks
  have types := tracks.types
  simp only [TypesChunk, pc] at types
  simp only [place, pc] at here
  rw [Job.typed, here]
  exact ⟨congrArg (fun n => job.responseContent.take n) (by omega), by omega, rfl⟩

theorem Job.Steps.typed {flag : Bool} {bubble : Nat} {job job' : Job} {event : JobEvent}
    {effect : Effect} (taken : job.Steps flag bubble event job' effect)
    {chunks texts : List KString} (typed : job.Typed flag bubble chunks texts) :
    job'.Typed flag bubble (chunks ++ event.chunks) (texts ++ effect.texts) := by
  obtain ⟨left, before⟩ := typed.tracks
  have tracks : ∃ left, job'.Tracks (chunks ++ event.chunks) left := ⟨_, taken.tracks before⟩
  have types := before.types
  cases taken with
  | emit chunk pc active =>
      have place : flag = true → texts.length = job.responseContent.length := by
        intro bright
        simpa [Job.place, pc] using typed.typing bright (by simp [isEnded, pc])
      have whole : chunks.flatten = job.responseContent ++ chunk := by
        simpa [pendingChunk, pc] using before.received (by simp [pc])
      refine ⟨tracks, ?_, ?_, ?_, by simp [pastCheck], ?_, by simp⟩
      · simp [JobEvent.chunks, whole]
      · simp only [Effect.texts, List.append_nil]
        rw [map_take_append typed.inside]
        exact typed.texts_eq
      · simp only [Effect.texts, List.append_nil, List.length_append]
        exact Nat.le_add_right_of_le typed.inside
      · intro bright _
        simp [Effect.texts, Job.place, place bright]
  | write chunk i index pc =>
      obtain ⟨text, inside, next⟩ := typed.due pc
      refine ⟨tracks, ?_, ?_, ?_, by simp [pastCheck, moveTo], ?_, by simp [moveTo]⟩
      · simpa [JobEvent.chunks, moveTo] using typed.part
      · simp only [Effect.texts, List.length_append, List.length_cons, List.length_nil,
          Nat.zero_add, List.range_succ, List.map_append, List.map_cons, List.map_nil, moveTo]
        rw [text, ← typed.texts_eq]
      · simpa [Effect.texts, moveTo] using inside
      · intro _ _
        simpa [Effect.texts, Job.place, moveTo] using next
  | checked chunk i pc inside generating =>
      have place := typed.typing generating (by simp [isEnded, pc])
      simp only [Job.place, pc] at place
      simp only [Effect.texts, List.append_nil]
      exact typed.moved tracks rfl (fun _ => place) (fun _ _ => place) (by simp [moveTo])
  | readIndex chunk i pc =>
      have place := typed.committed (by simp [pastCheck, pc])
      simp only [Job.place, pc] at place
      simp only [Effect.texts, List.append_nil]
      refine typed.moved tracks rfl (fun _ => place) (fun _ _ => place) ?_
      intro other j index same
      cases same
      rfl
  | typedOut chunk i pc leaves =>
      simp only [Effect.texts, List.append_nil]
      refine typed.moved tracks rfl (by simp [pastCheck, moveTo]) ?_ (by simp [moveTo])
      intro bright _
      have place := typed.typing bright (by simp [isEnded, pc])
      have inside := typed.inside
      simp only [TypesChunk, pc] at types
      simp only [Job.place, pc] at place
      -- the loop was left at the end of the chunk
      have last : ¬ i < chunk.length := fun inner => leaves ⟨inner, bright⟩
      show texts.length = job.responseContent.length
      omega
  | delay chunk i pc active =>
      simp only [Effect.texts, List.append_nil]
      refine typed.moved tracks rfl (by simp [pastCheck, moveTo]) ?_ (by simp [moveTo])
      intro bright _
      have place := typed.typing bright (by simp [isEnded, pc])
      simpa [Job.place, pc, moveTo, Nat.add_assoc] using place
  | start pc | sample text pc goesOn | sampleEnd pc | stop pc =>
      simp only [Effect.texts, List.append_nil]
      refine typed.moved tracks rfl (by simp [pastCheck, moveTo]) ?_ (by simp [moveTo])
      intro bright _
      simpa [Job.place, pc, moveTo] using typed.typing bright (by simp [isEnded, pc])
  | startThrows pc | sampleThrows pc | stopThrows pc | clearFlag pc | dropped pc stopped
  | emitCancelled chunk pc stopped | delayCancelled chunk i pc stopped =>
      simp only [Effect.texts, List.append_nil]
      exact typed.moved tracks rfl (by simp [pastCheck, moveTo])
        (fun _ running => absurd running (by simp [isEnded, moveTo])) (by simp [moveTo])

/-! ## The turn -/

def typedWrite (k bubble : Nat) (text : KString) : BubbleWrite :=
  { job := k, index := bubble, text := text }

/-- A turn in progress: what was written since `start` went to the bubble, and is
what the job has typed. -/
structure TurnTyped (start : ChatViewModel) (k : Nat) (chunks texts : List KString)
    (v : ChatViewModel) : Prop where
  lastIndex : v.lastIndex = start.lastIndex
  writes : v.bubbleWrites = start.bubbleWrites ++ texts.map (typedWrite k start.lastIndex)
  job : ∃ job, v.jobs[k]? = some job ∧ job.Typed v.isGenerating start.lastIndex chunks texts

theorem afterJob_lastIndex (k : Nat) (job : Job) (effect : Effect) (v : ChatViewModel) :
    (v.afterJob k job effect).lastIndex = v.lastIndex := by
  cases effect <;> simp [ChatViewModel.afterJob, ChatViewModel.lastIndex, ChatViewModel.setFlag]

theorem Job.Steps.bubbleWrites {flag : Bool} {bubble : Nat} {job job' : Job} {event : JobEvent}
    {effect : Effect} (taken : job.Steps flag bubble event job' effect)
    (index : ∀ chunk i index, job.pc = .write chunk i index → index = bubble) (k : Nat) :
    effect.bubbleWrites k = effect.texts.map (typedWrite k bubble) := by
  cases taken with
  | write chunk i index' pc =>
      rw [index chunk i index' pc]
      rfl
  | start | startThrows | dropped | sample | sampleEnd | sampleThrows | emit | emitCancelled
  | checked | typedOut | readIndex | delay | delayCancelled | stop | stopThrows | clearFlag =>
      rfl

theorem TurnTyped.stepJob {start : ChatViewModel} {k : Nat} {chunks texts : List KString}
    {v w : ChatViewModel} (turn : TurnTyped start k chunks texts v) {event : JobEvent}
    (taken : v.stepJob k event = some w) :
    ∃ more, TurnTyped start k (chunks ++ event.chunks) (texts ++ more) w := by
  obtain ⟨lastIndex, writes, job, found, typed⟩ := turn
  obtain ⟨here, job', effect, there, steps, rfl⟩ := ChatViewModel.stepJob_cases taken
  obtain rfl := Option.some.inj (found.symm.trans there)
  rw [lastIndex] at steps
  have inside : k < v.jobs.length := (List.getElem?_eq_some_iff.mp found).1
  have after := steps.typed typed
  refine ⟨effect.texts, (afterJob_lastIndex k job' effect v).trans lastIndex, ?_, job', ?_, ?_⟩
  · rw [ChatViewModel.afterJob_bubbleWrites, writes, steps.bubbleWrites typed.index,
      List.map_append, List.append_assoc]
  · rw [ChatViewModel.afterJob_jobs, List.getElem?_set_self inside]
  · rw [ChatViewModel.afterJob_isGenerating]
    split
    · exact after.dark
    · exact after

theorem Job.Typed.cancel {flag : Bool} {bubble : Nat} {chunks texts : List KString} {job : Job}
    (typed : job.Typed flag bubble chunks texts) :
    Job.Typed flag bubble chunks texts { job with cancelled := true } := by
  obtain ⟨⟨left, tracks⟩, part, texts_eq, inside, committed, typing, index⟩ := typed
  exact ⟨⟨left, ⟨tracks.received, tracks.behind, tracks.types⟩⟩, part, texts_eq, inside,
    committed, typing, index⟩

theorem TurnTyped.cancelJob {start : ChatViewModel} {k : Nat} {chunks texts : List KString}
    {v : ChatViewModel} (turn : TurnTyped start k chunks texts v) :
    TurnTyped start k chunks texts v.cancelJob := by
  obtain ⟨lastIndex, writes, job, found, typed⟩ := turn
  have marked := ChatViewModel.cancelJob_getElem? v k
  rw [found, Option.map_some] at marked
  refine ⟨?_, v.cancelJob_bubbleWrites.trans writes, _, marked, ?_⟩
  · rw [ChatViewModel.lastIndex, ChatViewModel.cancelJob_currentChatMessages]
    exact lastIndex
  · rw [ChatViewModel.cancelJob_isGenerating]
    split
    · exact typed.cancel
    · exact typed

theorem TurnTyped.step {start : ChatViewModel} {k : Nat} {chunks texts : List KString}
    {v w : ChatViewModel} (turn : TurnTyped start k chunks texts v) {event : TurnEvent}
    (taken : turnStep k v event = some w) :
    ∃ more, TurnTyped start k (chunks ++ turnChunks [event]) (texts ++ more) w := by
  cases event with
  | job event =>
      obtain ⟨more, after⟩ := turn.stepJob taken
      exact ⟨more, by simpa [turnChunks] using after⟩
  | flagCleared =>
      obtain rfl := Option.some.inj taken
      obtain ⟨lastIndex, writes, job, found, typed⟩ := turn
      refine ⟨[], ?_⟩
      rw [List.append_nil, show turnChunks [.flagCleared] = [] from rfl, List.append_nil]
      exact ⟨lastIndex, writes, job, found, typed.dark⟩
  | jobCancelled =>
      obtain rfl := Option.some.inj taken
      refine ⟨[], ?_⟩
      rw [List.append_nil, show turnChunks [.jobCancelled] = [] from rfl, List.append_nil]
      exact turn.cancelJob

theorem turnTyped_run {start : ChatViewModel} {k : Nat} :
    ∀ (events : List TurnEvent) (v w : ChatViewModel) (chunks texts : List KString),
    TurnTyped start k chunks texts v → runSteps (turnStep k) v events = some w →
    ∃ more, TurnTyped start k (chunks ++ turnChunks events) (texts ++ more) w := by
  intro events
  induction events with
  | nil =>
      intro v w chunks texts turn run
      obtain rfl := Option.some.inj run
      exact ⟨[], by simpa [turnChunks] using turn⟩
  | cons event rest ih =>
      intro v w chunks texts turn run
      obtain ⟨next, taken, later⟩ := Option.bind_eq_some_iff.mp run
      obtain ⟨first, here⟩ := turn.step taken
      obtain ⟨more, there⟩ := ih next w _ _ here later
      refine ⟨first ++ more, ?_⟩
      have split : turnChunks (event :: rest) = turnChunks [event] ++ turnChunks rest := by
        simp [turnChunks]
      rwa [split, ← List.append_assoc, ← List.append_assoc]

def launchedJob (query : KString) : Job :=
  { query := query, responseContent := [], pc := .launched, cancelled := false }

/-- Whatever chunks come, and whenever the flag is cleared or the job cancelled, all
that is written goes to the bubble and is typed in order. -/
theorem typed_in_order {v w : ChatViewModel} {k : Nat} {query : KString}
    (launched : v.jobs[k]? = some (launchedJob query)) {events : List TurnEvent}
    (run : runSteps (turnStep k) v events = some w) :
    ∃ texts, w.bubbleWrites = v.bubbleWrites ++ texts.map (typedWrite k v.lastIndex) ∧
      TypedInOrder (turnChunks events).flatten texts := by
  have start : TurnTyped v k [] [] v := by
    refine ⟨rfl, by simp, launchedJob query, launched, ⟨[], ?_⟩, ?_, rfl, ?_, ?_, ?_, ?_⟩
    · exact ⟨fun _ => rfl, Or.inl rfl, trivial⟩
    · exact List.nil_prefix
    · exact Nat.le_refl 0
    · exact fun past => absurd past (by simp [Job.pastCheck, launchedJob])
    · exact fun _ _ => rfl
    · simp [launchedJob]
  obtain ⟨texts, turn⟩ := turnTyped_run events v w [] [] start run
  obtain ⟨job, _, typed⟩ := turn.job
  refine ⟨texts, by simpa using turn.writes, ?_⟩
  simp only [List.nil_append] at typed
  have chain := typedInOrder_take typed.inside
  rw [← typed.texts_eq] at chain
  exact chain.mono typed.part

def askedView : ChatViewModel := ChatViewModel.init.sendMessage (kstring "Hi")

/-- The chunk `ok` is typed, and the next one is stopped behind its first character. -/
def stoppedTurn : List TurnEvent :=
  [.job .run, .job (.returns (kstring "ok")), .job .run] ++
    List.replicate 9 (.job .run) ++ [.job (.returns (kstring "ay")), .job .run] ++
    List.replicate 4 (.job .run) ++
    [.flagCleared, .job .run, .job (.returns (kstring "!")), .jobCancelled, .job .run]

def stoppedView : ChatViewModel :=
  (runSteps (turnStep 0) askedView stoppedTurn).getD .init

theorem typed_in_order_stopped :
    ∃ texts, stoppedView.bubbleWrites =
        askedView.bubbleWrites ++ texts.map (typedWrite 0 askedView.lastIndex) ∧
      TypedInOrder (turnChunks stoppedTurn).flatten texts := by
  have launched : askedView.jobs[0]? = some (launchedJob (kstring "Hi")) := by decide +kernel
  exact typed_in_order launched (by decide +kernel)

/-! ## Among the steps of the main thread -/

/-- The main thread is idle or in a stop that was asked for itself. -/
def MainPc.stopsOnly : MainPc → Bool
  | .idle => true
  | .clearFlag none => true
  | .cancelJob none => true
  | _ => false

def OnlyJob (k : Nat) : FineAction → Prop
  | .callSendMessage _ => False
  | .job j _ => j = k
  | _ => True

theorem mainStep_stopsOnly {v : ChatViewModel} {main : MainPc} {t : FineState}
    (stops : main.stopsOnly = true) (taken : mainStep v main = some t) :
    t.main.stopsOnly = true ∧ (t.view = v.setFlag false ∨ t.view = v.cancelJob) := by
  cases main with
  | idle => cases taken
  | clearFlag next =>
      cases next with
      | none =>
          obtain rfl := Option.some.inj taken
          exact ⟨rfl, Or.inl rfl⟩
      | some message => cases stops
  | cancelJob next =>
      cases next with
      | none =>
          obtain rfl := Option.some.inj taken
          exact ⟨rfl, Or.inr rfl⟩
      | some message => cases stops
  | readFlag | addUser | addBubble | setFlag | launch => cases stops

theorem turnRun_of_fineStep {k : Nat} {s t : FineState} {a : FineAction}
    (stops : s.main.stopsOnly = true) (only : OnlyJob k a) (taken : fineStep s a = some t) :
    t.main.stopsOnly = true ∧ ∃ events, runSteps (turnStep k) s.view events = some t.view ∧
      turnChunks events = chunksOf k [a] := by
  cases fineSteps_of_fineStep taken with
  | callSendMessage message => exact only.elim
  | callStopGeneration => exact ⟨rfl, [], rfl, rfl⟩
  | main taken =>
      obtain ⟨kept, flag | cancel⟩ := mainStep_stopsOnly stops taken
      · exact ⟨kept, [.flagCleared], by rw [flag]; rfl, rfl⟩
      · exact ⟨kept, [.jobCancelled], by rw [cancel]; rfl, rfl⟩
  | job j event stepped =>
      obtain rfl : j = k := only
      refine ⟨stops, [.job event], ?_, by simp [turnChunks, chunksOf]⟩
      simp [runSteps, turnStep, stepped]

/-- While nothing is asked and only one job moves, the screen goes through a turn of
that job. -/
theorem turnRun_of_fineRun {k : Nat} : ∀ (actions : List FineAction) (s t : FineState),
    s.main.stopsOnly = true → (∀ a ∈ actions, OnlyJob k a) →
    runSteps fineStep s actions = some t →
    ∃ events, runSteps (turnStep k) s.view events = some t.view ∧
      turnChunks events = chunksOf k actions := by
  intro actions
  induction actions with
  | nil =>
      intro s t _ _ run
      obtain rfl := Option.some.inj run
      exact ⟨[], rfl, rfl⟩
  | cons a rest ih =>
      intro s t stops only run
      obtain ⟨next, taken, later⟩ := Option.bind_eq_some_iff.mp run
      obtain ⟨kept, first, here, chunks⟩ := turnRun_of_fineStep stops (only a (by simp)) taken
      obtain ⟨more, there, others⟩ :=
        ih next t kept (fun b member => only b (by simp [member])) later
      refine ⟨first ++ more, by rw [runSteps_append, here]; exact there, ?_⟩
      have split : chunksOf k (a :: rest) = chunksOf k [a] ++ chunksOf k rest := by
        simp [chunksOf]
      rw [split, ← chunks, ← others]
      simp [turnChunks]

end MineGPT.Ui
