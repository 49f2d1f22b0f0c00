import MineGPT.Lib.Machine
import MineGPT.Native.Jni

/-!
# The objects behind `nativePtr`

The native `loadModel` allocates an `LLMInference` before anything can fail, and
only `close` deletes one, the one that `nativePtr` points to.  A `create` that
throws does not assign the pointer it was to return, and one that succeeds
overwrites the field: in both cases an object is left that nothing points to.
-/

set_option autoImplicit false

namespace MineGPT.Llm

open MineGPT.Native MineGPT.Lib.ByteString MineGPT.Lib MineGPT.Lib.Machine

/-- The talker, used by one thread, with the native objects that were allocated and
not deleted.  One whose `loadModel` threw is `none`. -/
structure Instances where
  nativePtr : Nat
  objects : List (Nat × Option LLMInference)

inductive TalkerCall where
  /-- The new object gets this address. -/
  | create (address : Nat) (oracle : LoadOracle) (arguments : LoadArguments)
  /-- `addUserMessage`, `addSystemPrompt` or `addAssistantMessage`. -/
  | addMessage (message role : CString)
  | getResponseGenerationSpeed
  | getContextLengthUsed
  | getResponse (query : CString) (oracles : List LoopOracle)
  | close

def leavesProcess : JniOutcome → Bool
  | .returned => true
  | .pending _ => true
  | .escaped _ => false
  | .aborted => false
  | .hangs => false

def responseReturns (t : Turn) : Bool :=
  match t.ending with
  | .completed => true
  | .startFailed failure => leavesProcess (jniThrow false failure)
  | .stopFailed failure => leavesProcess (jniThrow false failure)
  | .abandoned =>
    match t.loop.exit with
    | .failed failure => leavesProcess (jniThrow true failure)
    | _ => true

namespace Instances

def init : Instances := { nativePtr := 0, objects := [] }

def allocated (t : Instances) : List Nat := t.objects.map Prod.fst

def session (t : Instances) : Option LLMInference := (t.objects.lookup t.nativePtr).join

def store (t : Instances) (s : LLMInference) : Instances :=
  { t with objects :=
      t.objects.map fun object => if object.1 = t.nativePtr then (object.1, some s) else object }

/-- A call on the object behind `nativePtr`, after `verifyHandle`.  Without
assertions the null pointer is used, and the process ends. -/
def onSession (assertionsEnabled : Bool) (t : Instances)
    (f : LLMInference → Option LLMInference) : Option Instances :=
  if t.nativePtr = 0 then if assertionsEnabled then some t else none
  else (t.session.bind f).map t.store

def step (assertionsEnabled : Bool) (t : Instances) : TalkerCall → Option Instances
  | .create address oracle arguments =>
    -- `new` returns a pointer that is not in use
    if address = 0 ∨ address ∈ t.allocated then none
    else
      match loadModel oracle arguments with
      | .ok s => some { nativePtr := address, objects := (address, some s) :: t.objects }
      | .error _ => some { t with objects := (address, none) :: t.objects }
  | .addMessage message role =>
    t.onSession assertionsEnabled fun s => some (s.addChatMessage message role)
  | .getResponseGenerationSpeed => t.onSession assertionsEnabled some
  | .getContextLengthUsed => t.onSession assertionsEnabled some
  | .getResponse query oracles =>
    t.onSession assertionsEnabled fun s =>
      let turn := getResponse query oracles s
      if responseReturns turn then some turn.after else none
  | .close =>
    if t.nativePtr ≠ 0 then
      some { nativePtr := 0, objects := t.objects.filter fun object => object.1 ≠ t.nativePtr }
    else some t

/-- The allocated objects are the one `nativePtr` points to, or none if it is
null. -/
def Accounted (t : Instances) : Prop :=
  ∀ address, address ∈ t.allocated ↔ address = t.nativePtr ∧ t.nativePtr ≠ 0

/-- A `create` that fails leaves the pointer and the set of objects alone. -/
def FailureChangesNothing (assertionsEnabled : Bool) (t : Instances) : TalkerCall → Prop
  | .create address oracle arguments =>
    ∀ failure next, loadModel oracle arguments = .error failure →
      t.step assertionsEnabled (.create address oracle arguments) = some next →
      next.nativePtr = t.nativePtr ∧ ∀ other, other ∈ next.allocated ↔ other ∈ t.allocated
  | _ => True

end Instances

/-- The file is a model, and a context of that size can be created for it. -/
def Loads (oracle : LoadOracle) (arguments : LoadArguments) : Prop :=
  ∃ model, oracle.model = some model ∧
    (Native.llamaInitFromModel model (paramNCtx arguments.contextSize)).isSome = true ∧
    oracle.contextAllocated = true

/-- The condition on a call: a `create` finds no object, and does not fail. -/
def CreatesAlone (t : Instances) : TalkerCall → Prop
  | .create _ oracle arguments => t.nativePtr = 0 ∧ Loads oracle arguments
  | _ => True

theorem loads_iff (oracle : LoadOracle) (arguments : LoadArguments) :
    Loads oracle arguments ↔ ∃ s, loadModel oracle arguments = .ok s := by
  unfold Loads loadModel
  cases oracle.model with
  | none => simp
  | some model =>
      simp only [Option.some.injEq, exists_eq_left']
      cases Native.llamaInitFromModel model (paramNCtx arguments.contextSize) with
      | none => simp
      | some ctx => cases oracle.contextAllocated <;> simp

namespace Instances

@[simp] theorem allocated_store (t : Instances) (s : LLMInference) :
    (t.store s).allocated = t.allocated := by
  simp only [allocated, store, List.map_map]
  apply List.map_congr_left
  intro object _
  rw [Function.comp_apply]
  split <;> rfl

theorem mem_allocated_close (t : Instances) (address : Nat) :
    address ∈ (t.objects.filter fun object => object.1 ≠ t.nativePtr).map Prod.fst ↔
      address ∈ t.allocated ∧ address ≠ t.nativePtr := by
  simp [allocated]

theorem onSession_frame {enabled : Bool} {t next : Instances}
    {f : LLMInference → Option LLMInference} (called : t.onSession enabled f = some next) :
    next.nativePtr = t.nativePtr ∧ next.allocated = t.allocated := by
  unfold onSession at called
  split at called
  · split at called
    · obtain rfl := Option.some.inj called
      exact ⟨rfl, rfl⟩
    · cases called
  · obtain ⟨s, _, rfl⟩ := Option.map_eq_some_iff.mp called
    exact ⟨rfl, allocated_store t s⟩

theorem Accounted.onSession {enabled : Bool} {t next : Instances} (accounted : Accounted t)
    {f : LLMInference → Option LLMInference} (called : t.onSession enabled f = some next) :
    Accounted next := by
  obtain ⟨pointer, allocated⟩ := onSession_frame called
  unfold Accounted
  rw [pointer, allocated]
  exact accounted

theorem step_create {enabled : Bool} {t next : Instances} {address : Nat} {oracle : LoadOracle}
    {arguments : LoadArguments}
    (taken : t.step enabled (.create address oracle arguments) = some next) :
    address ≠ 0 ∧ address ∉ t.allocated ∧
      ((∃ s, loadModel oracle arguments = .ok s ∧
          next = { nativePtr := address, objects := (address, some s) :: t.objects }) ∨
        (∃ failure, loadModel oracle arguments = .error failure ∧
          next = { t with objects := (address, none) :: t.objects })) := by
  simp only [step] at taken
  split at taken
  · cases taken
  · rename_i fresh
    rw [not_or] at fresh
    refine ⟨fresh.1, fresh.2, ?_⟩
    cases returned : loadModel oracle arguments with
    | ok s =>
        rw [returned] at taken
        exact Or.inl ⟨s, rfl, (Option.some.inj taken).symm⟩
    | error failure =>
        rw [returned] at taken
        exact Or.inr ⟨failure, rfl, (Option.some.inj taken).symm⟩

theorem accounted_create_iff {enabled : Bool} {t next : Instances} {address : Nat}
    {oracle : LoadOracle} {arguments : LoadArguments} (before : Accounted t)
    (taken : t.step enabled (.create address oracle arguments) = some next) :
    Accounted next ↔ CreatesAlone t (.create address oracle arguments) := by
  obtain ⟨nonzero, fresh, created⟩ := step_create taken
  have condition : CreatesAlone t (.create address oracle arguments) ↔
      t.nativePtr = 0 ∧ ∃ s, loadModel oracle arguments = .ok s :=
    and_congr_right fun _ => loads_iff oracle arguments
  rw [condition]
  rcases created with ⟨s, returned, rfl⟩ | ⟨failure, returned, rfl⟩
  · constructor
    · intro after
      refine ⟨?_, s, returned⟩
      -- an object that was there would still be there
      by_contra present
      have old : t.nativePtr ∈ t.allocated := (before _).mpr ⟨rfl, present⟩
      have same : t.nativePtr = address :=
        ((after t.nativePtr).mp (List.mem_cons_of_mem address old)).1
      exact fresh (same ▸ old)
    · rintro ⟨null, _⟩ other
      have empty : other ∉ t.allocated := fun member => ((before other).mp member).2 null
      constructor
      · intro member
        rcases List.mem_cons.mp member with here | there
        · exact ⟨here, nonzero⟩
        · exact absurd there empty
      · rintro ⟨rfl, _⟩
        exact List.mem_cons_self
  · refine iff_of_false (fun after => ?_) (fun both => ?_)
    · -- the lost object
      have lost := (after address).mp List.mem_cons_self
      exact fresh ((before address).mpr lost)
    · obtain ⟨s, other⟩ := both.2
      rw [returned] at other
      cases other

theorem accounted_step_iff {enabled : Bool} {t next : Instances} {call : TalkerCall}
    (before : Accounted t) (taken : t.step enabled call = some next) :
    Accounted next ↔ CreatesAlone t call := by
  cases call with
  | create address oracle arguments => exact accounted_create_iff before taken
  | addMessage message role => exact iff_of_true (before.onSession taken) trivial
  | getResponseGenerationSpeed => exact iff_of_true (before.onSession taken) trivial
  | getContextLengthUsed => exact iff_of_true (before.onSession taken) trivial
  | getResponse query oracles => exact iff_of_true (before.onSession taken) trivial
  | close =>
      refine iff_of_true ?_ trivial
      simp only [step] at taken
      split at taken
      · obtain rfl := Option.some.inj taken
        intro address
        refine (mem_allocated_close t address).trans ?_
        rw [before address]
        exact iff_of_false (fun both => both.2 both.1.1) (fun both => both.2 rfl)
      · obtain rfl := Option.some.inj taken
        exact before

theorem failureChangesNothing_of_createsAlone {enabled : Bool} {t : Instances} {call : TalkerCall}
    (alone : CreatesAlone t call) : FailureChangesNothing enabled t call := by
  cases call with
  | create address oracle arguments =>
      intro failure next failed _
      obtain ⟨s, returned⟩ := (loads_iff oracle arguments).mp alone.2
      rw [failed] at returned
      cases returned
  | addMessage | getResponseGenerationSpeed | getContextLengthUsed | getResponse | close =>
      trivial

theorem accounted_init : Accounted init := by
  intro address
  simp [init, allocated]

/-- In every run the objects are accounted for, and a failing `create` changes
nothing, exactly when each `create` finds no object and loads its model. -/
theorem accounted_iff (enabled : Bool) (calls : List TalkerCall) :
    (Visits (step enabled) Accounted init calls ∧
        StepsMeet (step enabled) (FailureChangesNothing enabled) init calls) ↔
      StepsMeet (step enabled) CreatesAlone init calls := by
  rw [and_comm]
  refine Machine.meets_and_visits_iff_stepsMeet (I := fun _ => True) (fun _ _ _ _ _ => trivial)
    ?_ trivial accounted_init
  intro t call next _ before taken
  have exact_ := accounted_step_iff before taken
  exact ⟨fun both => exact_.mp both.2, fun alone =>
    ⟨failureChangesNothing_of_createsAlone alone, exact_.mpr alone⟩⟩

/-! ## The native methods behind a call

What a call does with the object that the field points to is what the native
methods do that it is made of. -/

structure Linked (t : Instances) : Prop where
  notNull : 0 ∉ t.allocated
  pointed : t.nativePtr ≠ 0 → ∃ s, t.session = some s

theorem session_none {t : Instances} (absent : t.nativePtr ∉ t.allocated) : t.session = none := by
  have unknown : t.objects.lookup t.nativePtr = none := by
    rw [List.lookup_eq_none_iff]
    intro object member
    have other : t.nativePtr ≠ object.1 := by
      intro same
      exact absent (same ▸ List.mem_map_of_mem member)
    simpa using other
  rw [session, unknown]
  rfl

theorem mem_allocated_of_session {t : Instances} {s : LLMInference} (live : t.session = some s) :
    t.nativePtr ∈ t.allocated := by
  by_contra absent
  rw [session_none absent] at live
  cases live

theorem lookup_map_set {address : Nat} {s : LLMInference} :
    ∀ {objects : List (Nat × Option LLMInference)}, address ∈ objects.map Prod.fst →
    (objects.map fun object => if object.1 = address then (object.1, some s) else object).lookup
      address = some (some s) := by
  intro objects
  induction objects with
  | nil => intro member; simp at member
  | cons object rest ih =>
      intro member
      by_cases here : object.1 = address
      · rw [List.map_cons, if_pos here, here]
        simp
      · have later := (List.mem_cons.mp member).resolve_left (Ne.symm here)
        rw [List.map_cons, if_neg here, List.lookup_cons, ih later]
        have other : (address == object.1) = false := by simpa using Ne.symm here
        rw [other]

theorem session_store {t : Instances} {s : LLMInference} (present : t.nativePtr ∈ t.allocated) :
    (t.store s).session = some s := by
  have found : (t.store s).objects.lookup t.nativePtr = some (some s) := lookup_map_set present
  unfold session
  rw [show (t.store s).nativePtr = t.nativePtr from rfl, found]
  rfl

theorem session_cons_other {t : Instances} {address : Nat} (fresh : t.nativePtr ≠ address)
    (object : Option LLMInference) :
    session { t with objects := (address, object) :: t.objects } = t.session := by
  have other : (t.nativePtr == address) = false := by simpa using fresh
  simp only [session, List.lookup_cons, other]

theorem after_running {outcome : JniOutcome} (stays : leavesProcess outcome = true)
    (session : Option LLMInference) : Process.after outcome session = .running session := by
  cases outcome with
  | returned | pending => rfl
  | escaped | aborted | hangs => cases stays

theorem responseLoop_jni : ∀ (oracles : List LoopOracle) (s : LLMInference),
    (∀ failure, (s.responseLoop oracles).exit = .failed failure →
      leavesProcess (jniThrow true failure) = true) →
    ∃ calls, runSteps jniStep (.running (some s)) calls =
      some (.running (some (s.responseLoop oracles).state)) := by
  intro oracles
  induction oracles with
  | nil =>
      intro s _
      exact ⟨[], rfl⟩
  | cons oracle rest ih =>
      intro s stays
      cases call : s.completionLoop oracle with
      | mk result after =>
          cases result with
          | error failure =>
              simp only [LLMInference.responseLoop, call] at stays ⊢
              refine ⟨[.completionLoop oracle], ?_⟩
              simp only [runSteps, jniStep, jniCall, Option.map_some, call, jniReturn,
                Option.bind_some]
              rw [after_running (stays failure rfl)]
          | ok text =>
              have first : jniStep (.running (some s)) (.completionLoop oracle) =
                  some (.running (some after)) := by
                simp [jniStep, jniCall, call, jniReturn, Process.after]
              by_cases marker : cstr text = lit "[EOG]"
              · refine ⟨[.completionLoop oracle], ?_⟩
                simp [runSteps, first, LLMInference.responseLoop, call, marker]
              · simp only [LLMInference.responseLoop, call, if_neg marker] at stays ⊢
                obtain ⟨calls, later⟩ := ih after stays
                exact ⟨.completionLoop oracle :: calls, by rw [runSteps, first]; exact later⟩

theorem getResponse_jni {query : CString} {oracles : List LoopOracle} {s : LLMInference}
    (returns : responseReturns (getResponse query oracles s) = true) :
    ∃ calls, runSteps jniStep (.running (some s)) calls =
      some (.running (some (getResponse query oracles s).after)) := by
  unfold getResponse at returns ⊢
  cases start : s.startCompletion query with
  | mk result started =>
      have first : jniStep (.running (some s)) (.startCompletion query) =
          some (.after (jniReturn false result) (some started)) := by
        simp [jniStep, jniCall, start]
      cases result with
      | error failure =>
          simp only [start] at returns ⊢
          refine ⟨[.startCompletion query], ?_⟩
          rw [runSteps, first, jniReturn, after_running returns]
          rfl
      | ok prompt =>
          simp only [start] at returns ⊢
          have began : jniStep (.running (some s)) (.startCompletion query) =
              some (.running (some started)) := first
          by_cases reached : (started.responseLoop oracles).exit.reachesStop = true
          · obtain ⟨calls, loop⟩ := responseLoop_jni oracles started (by
              intro failure failed
              rw [failed] at reached
              cases reached)
            rw [if_pos reached] at returns ⊢
            refine ⟨.startCompletion query :: (calls ++ [.stopCompletion]), ?_⟩
            rw [runSteps, began, Option.bind_some, runSteps_append, loop, Option.bind_some]
            cases stop : (started.responseLoop oracles).state.stopCompletion with
            | mk result after =>
                cases result with
                | ok done => simp [runSteps, jniStep, jniCall, stop, jniReturn, Process.after]
                | error failure =>
                    rw [stop] at returns
                    simp only [runSteps, jniStep, jniCall, Option.map_some, stop, jniReturn,
                      Option.bind_some]
                    rw [after_running returns]
          · rw [if_neg reached] at returns ⊢
            obtain ⟨calls, loop⟩ := responseLoop_jni oracles started (by
              intro failure failed
              simpa [responseReturns, failed] using returns)
            exact ⟨.startCompletion query :: calls, by rw [runSteps, began]; exact loop⟩

theorem onSession_jni {enabled : Bool} {t next : Instances} (linked : Linked t)
    {f : LLMInference → Option LLMInference} (called : t.onSession enabled f = some next)
    (native : ∀ s after, f s = some after →
      ∃ calls, runSteps jniStep (.running (some s)) calls = some (.running (some after))) :
    Linked next ∧
      ∃ calls, runSteps jniStep (.running t.session) calls = some (.running next.session) := by
  unfold onSession at called
  split at called
  · split at called
    · obtain rfl := Option.some.inj called
      exact ⟨linked, [], rfl⟩
    · cases called
  · obtain ⟨after, ran, rfl⟩ := Option.map_eq_some_iff.mp called
    obtain ⟨s, live, returned⟩ := Option.bind_eq_some_iff.mp ran
    have stored := session_store (s := after) (mem_allocated_of_session live)
    obtain ⟨calls, run⟩ := native s after returned
    refine ⟨⟨?_, fun _ => ⟨after, stored⟩⟩, calls, by rw [live, stored, run]⟩
    rw [allocated_store]
    exact linked.notNull

theorem linked_init : Linked init where
  notNull := by simp [init, allocated]
  pointed := fun set => absurd rfl set

theorem create_jni {enabled : Bool} {t next : Instances} {address : Nat} {oracle : LoadOracle}
    {arguments : LoadArguments} (linked : Linked t)
    (taken : t.step enabled (.create address oracle arguments) = some next) :
    Linked next ∧
      ∃ calls, runSteps jniStep (.running t.session) calls = some (.running next.session) := by
  obtain ⟨nonzero, fresh, created⟩ := step_create taken
  have notNull : ∀ object : Option LLMInference,
      0 ∉ ((address, object) :: t.objects).map Prod.fst := by
    intro object member
    rcases List.mem_cons.mp member with here | there
    · exact nonzero here.symm
    · exact linked.notNull there
  rcases created with ⟨s, returned, rfl⟩ | ⟨failure, returned, rfl⟩
  · have live : session { nativePtr := address, objects := (address, some s) :: t.objects } =
        some s := by
      simp [session]
    refine ⟨⟨notNull _, fun _ => ⟨s, live⟩⟩, [.loadModel oracle arguments], ?_⟩
    rw [live]
    simp [runSteps, jniStep, jniCall, returned, Process.after]
  · have apart : t.nativePtr ≠ address := by
      rintro same
      by_cases null : t.nativePtr = 0
      · exact nonzero (same ▸ null)
      · obtain ⟨s, live⟩ := linked.pointed null
        exact fresh (same ▸ mem_allocated_of_session live)
    have kept := session_cons_other apart none
    refine ⟨⟨notNull _, fun set => ?_⟩, [.loadModel oracle arguments], ?_⟩
    · rw [kept]
      exact linked.pointed set
    · rw [kept]
      obtain ⟨what, rfl⟩ := loadModel_throws returned
      simp [runSteps, jniStep, jniCall, returned, jniThrow, Process.after]

theorem close_jni {enabled : Bool} {t next : Instances} (linked : Linked t)
    (taken : t.step enabled .close = some next) :
    Linked next ∧
      ∃ calls, runSteps jniStep (.running t.session) calls = some (.running next.session) := by
  simp only [step] at taken
  split at taken
  · rename_i set
    obtain rfl := Option.some.inj taken
    obtain ⟨s, live⟩ := linked.pointed set
    have notNull : 0 ∉ (t.objects.filter fun object => object.1 ≠ t.nativePtr).map Prod.fst :=
      fun member => linked.notNull ((mem_allocated_close t 0).mp member).1
    refine ⟨⟨notNull, fun set => absurd rfl set⟩, [.close], ?_⟩
    rw [live, session_none notNull]
    rfl
  · obtain rfl := Option.some.inj taken
    exact ⟨linked, [], rfl⟩

theorem step_jni {enabled : Bool} {t next : Instances} {call : TalkerCall} (linked : Linked t)
    (taken : t.step enabled call = some next) :
    Linked next ∧
      ∃ calls, runSteps jniStep (.running t.session) calls = some (.running next.session) := by
  cases call with
  | create address oracle arguments => exact create_jni linked taken
  | addMessage message role =>
      refine onSession_jni linked taken fun s after returned => ⟨[.addChatMessage message role], ?_⟩
      rw [← Option.some.inj returned]
      rfl
  | getResponseGenerationSpeed =>
      refine onSession_jni linked taken fun s after returned => ⟨[], ?_⟩
      rw [← Option.some.inj returned]
      rfl
  | getContextLengthUsed =>
      refine onSession_jni linked taken fun s after returned => ⟨[], ?_⟩
      rw [← Option.some.inj returned]
      rfl
  | getResponse query oracles =>
      refine onSession_jni linked taken fun s after returned => ?_
      simp only at returned
      split at returned
      · rename_i survives
        rw [← Option.some.inj returned]
        exact getResponse_jni survives
      · cases returned
  | close => exact close_jni linked taken

/-- A run of the talker is a run of native methods on the object it points to. -/
theorem jniRun_of_run {enabled : Bool} {calls : List TalkerCall} {t : Instances}
    (run : runSteps (step enabled) init calls = some t) :
    ∃ methods, runSteps jniStep (.running none) methods = some (.running t.session) :=
  @runSteps_of_simulation _ _ (step enabled) _ _ jniStep (fun t => .running t.session) Linked
    (fun _ _ _ linked taken => step_jni linked taken) calls init t linked_init run

def unreadable : LoadOracle := { model := none, contextAllocated := true }

/-- A `create` that fails, and one after another. -/
theorem not_accounted_twice :
    ((runSteps (step true) init [.create 1 unreadable (smallArguments true)]).map
        fun t => (t.nativePtr, t.allocated)) = some (0, [1]) ∧
      ((runSteps (step true) init
        [.create 1 (smallOracle []) (smallArguments true),
          .create 2 (smallOracle []) (smallArguments true)]).map
        fun t => (t.nativePtr, t.allocated)) = some (2, [2, 1]) ∧
      ¬ Visits (step true) Accounted init [.create 1 unreadable (smallArguments true)] := by
  have lost : (runSteps (step true) init [.create 1 unreadable (smallArguments true)]).map
      (fun t => (t.nativePtr, t.allocated)) = some (0, [1]) := by decide +kernel
  refine ⟨lost, by decide +kernel, fun visits => ?_⟩
  obtain ⟨last, reached, state⟩ := Option.map_eq_some_iff.mp lost
  obtain ⟨pointer, allocated⟩ := Prod.mk.inj state
  have accounted := visits.finish reached 1
  rw [pointer, allocated] at accounted
  simp at accounted

end Instances

end MineGPT.Llm
