import MineGPT.Lib.Components
import MineGPT.Ui.ViewModel

/-!
# `LLMTalker`

The Kotlin class around a native session.  Its operations run on any number of
threads and coroutines and share the field `nativePtr`, which each of them reads
again for every native call; `close` frees the object first and resets the field
afterwards.  `verifyHandle` is an `assert`, and only the first statement.

An operation is a program counter: reading `nativePtr` for a call and the call
are two steps.  A handle is the object behind it: the `n`-th successful
`loadModel` returns handle `n`, and 0 is the null pointer.
-/

set_option autoImplicit false

namespace MineGPT.Llm

open MineGPT.Ui (KString endMarker)
open MineGPT.Lib MineGPT.Lib.Machine MineGPT.Lib.Components

inductive NativeMethod where
  | addChatMessage
  | getResponseGenerationSpeed
  | getContextSizeUsed
  | close
  | startCompletion
  | completionLoop
  | stopCompletion
  deriving DecidableEq, Repr

inductive Operation where
  | create
  | addUserMessage
  | addSystemPrompt
  | addAssistantMessage
  | getResponseGenerationSpeed
  | getContextLengthUsed
  /-- One collection of a flow that `getResponse` returned. -/
  | getResponse
  | close
  deriving DecidableEq, Repr

inductive Pc where
  | loadModel
  /-- `if (nativePtr != 0L)` in `close` -/
  | closeCheck
  /-- `verifyHandle()`, before the first native call of the operation. -/
  | verifyHandle (method : NativeMethod)
  /-- `nativePtr` is read next, as the argument of this call. -/
  | argument (method : NativeMethod)
  | invoke (method : NativeMethod) (handle : Nat)
  /-- `nativePtr = 0L`, after the native `close` of this handle. -/
  | reset (handle : Nat)
  | emit
  | ended
  deriving DecidableEq, Repr

def Operation.entry : Operation → Pc
  | .create => .loadModel
  | .addUserMessage => .verifyHandle .addChatMessage
  | .addSystemPrompt => .verifyHandle .addChatMessage
  | .addAssistantMessage => .verifyHandle .addChatMessage
  | .getResponseGenerationSpeed => .verifyHandle .getResponseGenerationSpeed
  | .getContextLengthUsed => .verifyHandle .getContextSizeUsed
  | .getResponse => .verifyHandle .startCompletion
  | .close => .closeCheck

inductive Event where
  | run
  /-- The native method returns; only `completionLoop` returns a text. -/
  | returns (text : KString)
  | throws
  /-- The flow is cancelled, or its collector throws. -/
  | cancelled
  deriving DecidableEq, Repr

inductive Effect where
  | none
  | loaded
  | invoked (method : NativeMethod) (handle : Nat)
  | resetPtr
  deriving DecidableEq, Repr

/-- Where an operation goes on when a native method has returned. -/
def NativeMethod.next (handle : Nat) (text : KString) : NativeMethod → Pc
  | .close => .reset handle
  | .startCompletion => .argument .completionLoop
  | .completionLoop => if text = endMarker then .argument .stopCompletion else .emit
  | .addChatMessage => .ended
  | .getResponseGenerationSpeed => .ended
  | .getContextSizeUsed => .ended
  | .stopCompletion => .ended

/-- One step of an operation that finds this value in `nativePtr`; `none` when
the event is not possible there. -/
def Pc.step (assertionsEnabled : Bool) (nativePtr : Nat) : Pc → Event → Option (Pc × Effect)
  | .loadModel, .returns _ => some (.ended, .loaded)
  | .loadModel, .throws => some (.ended, .none)
  | .closeCheck, .run => some (if nativePtr ≠ 0 then .argument .close else .ended, .none)
  | .verifyHandle method, .run =>
    some (if assertionsEnabled ∧ nativePtr = 0 then .ended else .argument method, .none)
  | .argument method, .run => some (.invoke method nativePtr, .none)
  | .invoke method handle, .returns text =>
    some (method.next handle text, .invoked method handle)
  | .invoke .close _, .throws => none
  | .invoke method handle, .throws => some (.ended, .invoked method handle)
  | .reset _, .run => some (.ended, .resetPtr)
  | .emit, .run => some (.argument .completionLoop, .none)
  | .emit, .cancelled => some (.ended, .none)
  | _, _ => none

structure Invocation where
  method : NativeMethod
  handle : Nat
  /-- `loadModel` had returned the handle, and the native `close` had not been
  called with it. -/
  alive : Bool
  deriving DecidableEq, Repr

structure LLMTalker where
  nativePtr : Nat
  /-- How many handles `loadModel` has returned. -/
  loaded : Nat
  /-- The handles that the native `close` was called with. -/
  closed : List Nat
  operations : List Pc
  invocations : List Invocation
  deriving DecidableEq, Repr

namespace LLMTalker

def init : LLMTalker :=
  { nativePtr := 0, loaded := 0, closed := [], operations := [], invocations := [] }

def Alive (t : LLMTalker) (handle : Nat) : Prop :=
  0 < handle ∧ handle ≤ t.loaded ∧ handle ∉ t.closed

instance (t : LLMTalker) (handle : Nat) : Decidable (t.Alive handle) :=
  inferInstanceAs (Decidable (_ ∧ _ ∧ _))

def apply (t : LLMTalker) : Effect → LLMTalker
  | .none => t
  -- the field is written when `loadModel` returns
  | .loaded => { t with nativePtr := t.loaded + 1, loaded := t.loaded + 1 }
  | .invoked method handle =>
    { t with
      closed := if method = .close then handle :: t.closed else t.closed
      invocations := t.invocations ++
        [{ method := method, handle := handle, alive := t.Alive handle }] }
  | .resetPtr => { t with nativePtr := 0 }

def moveTo (t : LLMTalker) (k : Nat) (pc : Pc) : LLMTalker :=
  { t with operations := t.operations.set k pc }

end LLMTalker

inductive Action where
  | call (operation : Operation)
  | operation (k : Nat) (event : Event)
  deriving DecidableEq, Repr

def LLMTalker.step (assertionsEnabled : Bool) (t : LLMTalker) : Action → Option LLMTalker
  | .call operation => some { t with operations := t.operations ++ [operation.entry] }
  | .operation k event =>
    match t.operations[k]? with
    | none => none
    | some pc =>
      (pc.step assertionsEnabled t.nativePtr event).map fun (pc', effect) =>
        (t.apply effect).moveTo k pc'

def AliveCalls (t : LLMTalker) : Prop := ∀ call ∈ t.invocations, call.alive = true

/-! ## The condition -/

/-- The handle that was read for the native call the operation makes next. -/
def Pc.held : Pc → Option Nat
  | .invoke _ handle => some handle
  | _ => none

/-- The handle that `close` has freed, while `nativePtr` is not reset. -/
def Pc.freed : Pc → Option Nat
  | .reset handle => some handle
  | _ => none

/-- The next step reads `nativePtr` for a native call. -/
def Pc.reads : Pc → Bool
  | .argument _ => true
  | _ => false

/-- The handle that the next step passes to the native `close`. -/
def Pc.freeing : Pc → Option Nat
  | .invoke .close handle => some handle
  | _ => none

def LLMTalker.others (t : LLMTalker) (k : Nat) : List Pc := t.operations.eraseIdx k

/-- The condition on a step: `nativePtr` is read for a call only when it is set
and no `close` that has freed its object is still to reset it, and the native
`close` is called only when no other operation is about to call with the same
handle. -/
def ClosedApart (t : LLMTalker) : Action → Prop
  | .call _ => True
  | .operation k _ =>
    ∀ pc ∈ t.operations[k]?,
      (pc.reads = true → t.nativePtr ≠ 0 ∧ t.nativePtr ∉ t.operations.filterMap Pc.freed) ∧
        ∀ handle ∈ pc.freeing, handle ∉ (t.others k).filterMap Pc.held

instance (t : LLMTalker) : (a : Action) → Decidable (ClosedApart t a)
  | .call _ => isTrue trivial
  | .operation k _ => inferInstanceAs (Decidable (∀ pc ∈ t.operations[k]?, _ ∧ _))

/-! ## One operation moves -/

def Pc.Plain (pc : Pc) : Prop := pc.held = none ∧ pc.freed = none

theorem Pc.Plain.freeing {pc : Pc} (plain : pc.Plain) : pc.freeing = none := by
  cases pc with
  | invoke method handle => exact absurd plain.1 (by simp [Pc.held])
  | loadModel | closeCheck | verifyHandle | argument | reset | emit | ended => rfl

theorem Pc.freeing_invoke {method : NativeMethod} (other : method ≠ .close) (handle : Nat) :
    (Pc.invoke method handle).freeing = none := by
  cases method with
  | close => exact absurd rfl other
  | addChatMessage | getResponseGenerationSpeed | getContextSizeUsed | startCompletion
  | completionLoop | stopCompletion => rfl

inductive Pc.Moves (nativePtr : Nat) : Pc → Pc → Effect → Prop where
  | plain {pc pc' : Pc} (before : pc.Plain) (reads : pc.reads = false)
      (after : pc'.Plain) : Moves nativePtr pc pc' .none
  | load : Moves nativePtr .loadModel .ended .loaded
  | read (method : NativeMethod) :
      Moves nativePtr (.argument method) (.invoke method nativePtr) .none
  | free (handle : Nat) :
      Moves nativePtr (.invoke .close handle) (.reset handle) (.invoked .close handle)
  | invoke {method : NativeMethod} (handle : Nat) {pc' : Pc} (other : method ≠ .close)
      (after : pc'.Plain) :
      Moves nativePtr (.invoke method handle) pc' (.invoked method handle)
  | reset (handle : Nat) : Moves nativePtr (.reset handle) .ended .resetPtr

theorem Pc.moves_of_step {enabled : Bool} {nativePtr : Nat} {pc pc' : Pc} {event : Event}
    {effect : Effect} (taken : pc.step enabled nativePtr event = some (pc', effect)) :
    Moves nativePtr pc pc' effect := by
  cases pc with
  | loadModel =>
      cases event <;> cases taken
      · exact .load
      · exact .plain ⟨rfl, rfl⟩ rfl ⟨rfl, rfl⟩
  | closeCheck =>
      cases event <;> cases taken
      refine .plain ⟨rfl, rfl⟩ rfl ?_
      split <;> exact ⟨rfl, rfl⟩
  | verifyHandle method =>
      cases event <;> cases taken
      refine .plain ⟨rfl, rfl⟩ rfl ?_
      split <;> exact ⟨rfl, rfl⟩
  | argument method =>
      cases event <;> cases taken
      exact .read method
  | invoke method handle =>
      cases event with
      | run => cases method <;> cases taken
      | cancelled => cases method <;> cases taken
      | throws => cases method <;> cases taken <;> exact .invoke handle (by simp) ⟨rfl, rfl⟩
      | returns text =>
          by_cases close : method = .close
          case pos =>
            subst close
            cases taken
            exact .free handle
          case neg =>
            have plain : (method.next handle text).Plain := by
              cases method with
              | close => exact absurd rfl close
              | completionLoop => simp only [NativeMethod.next]; split <;> exact ⟨rfl, rfl⟩
              | addChatMessage | getResponseGenerationSpeed | getContextSizeUsed
              | startCompletion | stopCompletion => exact ⟨rfl, rfl⟩
            cases method <;> cases taken <;> exact .invoke handle close plain
  | reset handle =>
      cases event <;> cases taken
      exact .reset handle
  | emit =>
      cases event <;> cases taken <;> exact .plain ⟨rfl, rfl⟩ rfl ⟨rfl, rfl⟩
  | ended => cases event <;> cases taken

theorem LLMTalker.step_operation {enabled : Bool} {t next : LLMTalker} {k : Nat} {event : Event}
    (taken : t.step enabled (.operation k event) = some next) :
    ∃ pc pc' effect, t.operations[k]? = some pc ∧ Pc.Moves t.nativePtr pc pc' effect ∧
      next = (t.apply effect).moveTo k pc' := by
  simp only [step] at taken
  split at taken
  · cases taken
  · rename_i pc at_k
    obtain ⟨⟨pc', effect⟩, stepped, rfl⟩ := Option.map_eq_some_iff.mp taken
    exact ⟨pc, pc', effect, at_k, Pc.moves_of_step stepped, rfl⟩

theorem LLMTalker.apply_operations (t : LLMTalker) (effect : Effect) :
    (t.apply effect).operations = t.operations := by
  cases effect <;> rfl

theorem LLMTalker.mem_moveTo {t : LLMTalker} {k : Nat} {pc : Pc}
    (at_k : t.operations[k]? = some pc) (f : Pc → Option Nat) (effect : Effect) (pc' : Pc)
    (h : Nat) :
    h ∈ ((t.apply effect).moveTo k pc').operations.filterMap f ↔
      f pc' = some h ∨ h ∈ (t.others k).filterMap f := by
  rw [moveTo, t.apply_operations]
  exact mem_filterMap_set at_k h

theorem LLMTalker.mem_of_mem_moveTo {t : LLMTalker} {k : Nat} {pc pc' : Pc} {effect : Effect}
    (at_k : t.operations[k]? = some pc) {f : Pc → Option Nat} (clear : f pc' = none) {h : Nat}
    (member : h ∈ ((t.apply effect).moveTo k pc').operations.filterMap f) :
    h ∈ t.operations.filterMap f := by
  rw [mem_moveTo at_k, clear] at member
  exact (mem_filterMap_of_getElem? at_k h).mpr (Or.inr (member.resolve_left (by simp)))

theorem LLMTalker.mem_moveTo_of_mem {t : LLMTalker} {k : Nat} {pc pc' : Pc} {effect : Effect}
    (at_k : t.operations[k]? = some pc) {f : Pc → Option Nat} (clear : f pc = none) {h : Nat}
    (member : h ∈ t.operations.filterMap f) :
    h ∈ ((t.apply effect).moveTo k pc').operations.filterMap f := by
  rw [mem_filterMap_of_getElem? at_k, clear] at member
  exact (mem_moveTo at_k f effect pc' h).mpr (Or.inr (member.resolve_left (by simp)))

/-! ## What every run keeps -/

structure Tracked (t : LLMTalker) : Prop where
  pointer_le : t.nativePtr ≤ t.loaded
  closed_le : ∀ h ∈ t.closed, h ≤ t.loaded
  held_le : ∀ h ∈ t.operations.filterMap Pc.held, h ≤ t.loaded
  freed : ∀ h ∈ t.operations.filterMap Pc.freed, h ∈ t.closed
  /-- A closed handle stays in the field only as long as its reset is due. -/
  pointer : t.nativePtr ≠ 0 → t.nativePtr ∈ t.closed →
    t.nativePtr ∈ t.operations.filterMap Pc.freed

theorem Tracked.alive_iff {t : LLMTalker} (tracked : Tracked t) :
    t.Alive t.nativePtr ↔
      t.nativePtr ≠ 0 ∧ t.nativePtr ∉ t.operations.filterMap Pc.freed := by
  constructor
  · rintro ⟨set, _, notClosed⟩
    exact ⟨Nat.pos_iff_ne_zero.mp set, fun due => notClosed (tracked.freed _ due)⟩
  · rintro ⟨set, notDue⟩
    exact ⟨Nat.pos_of_ne_zero set, tracked.pointer_le,
      fun closed => notDue (tracked.pointer set closed)⟩

theorem tracked_init : Tracked LLMTalker.init where
  pointer_le := Nat.le_refl _
  closed_le := by simp [LLMTalker.init]
  held_le := by simp [LLMTalker.init]
  freed := by simp [LLMTalker.init]
  pointer := by simp [LLMTalker.init]

theorem Tracked.call {t : LLMTalker} (tracked : Tracked t) (operation : Operation) :
    Tracked { t with operations := t.operations ++ [operation.entry] } := by
  have held : Pc.held operation.entry = none := by cases operation <;> rfl
  have freed : Pc.freed operation.entry = none := by cases operation <;> rfl
  have same : ∀ f : Pc → Option Nat, f operation.entry = none →
      (t.operations ++ [operation.entry]).filterMap f = t.operations.filterMap f := by
    intro f none
    simp [none]
  exact ⟨tracked.pointer_le, tracked.closed_le, by rw [same _ held]; exact tracked.held_le,
    by rw [same _ freed]; exact tracked.freed, by rw [same _ freed]; exact tracked.pointer⟩

theorem Tracked.moved {t : LLMTalker} (tracked : Tracked t) {k : Nat} {pc pc' : Pc}
    {effect : Effect} (at_k : t.operations[k]? = some pc)
    (moves : Pc.Moves t.nativePtr pc pc' effect) : Tracked ((t.apply effect).moveTo k pc') := by
  obtain ⟨pointer_le, closed_le, held_le, freed, pointer⟩ := tracked
  cases moves with
  | plain clear _ clear' =>
      refine ⟨pointer_le, closed_le, fun h member => ?_, fun h member => ?_, fun set closed => ?_⟩
      · exact held_le h (LLMTalker.mem_of_mem_moveTo at_k clear'.1 member)
      · exact freed h (LLMTalker.mem_of_mem_moveTo at_k clear'.2 member)
      · exact LLMTalker.mem_moveTo_of_mem at_k clear.2 (pointer set closed)
  | load =>
      refine ⟨Nat.le_refl _, fun h member => Nat.le_succ_of_le (closed_le h member),
        fun h member => ?_, fun h member => ?_, fun _ closed => ?_⟩
      · exact Nat.le_succ_of_le (held_le h (LLMTalker.mem_of_mem_moveTo at_k rfl member))
      · exact freed h (LLMTalker.mem_of_mem_moveTo at_k rfl member)
      · exact absurd (closed_le _ closed) (Nat.not_succ_le_self _)
  | read method =>
      refine ⟨pointer_le, closed_le, fun h member => ?_, fun h member => ?_, fun set closed => ?_⟩
      · rcases (LLMTalker.mem_moveTo at_k _ _ _ h).mp member with here | there
        · rw [← Option.some.inj here]
          exact pointer_le
        · exact held_le h ((mem_filterMap_of_getElem? at_k h).mpr (Or.inr there))
      · exact freed h (LLMTalker.mem_of_mem_moveTo at_k rfl member)
      · exact LLMTalker.mem_moveTo_of_mem at_k rfl (pointer set closed)
  | free handle =>
      have read : handle ≤ t.loaded :=
        held_le handle ((mem_filterMap_of_getElem? at_k handle).mpr (Or.inl rfl))
      refine ⟨pointer_le, fun h member => ?_, fun h member => ?_, fun h member => ?_,
        fun set closed => ?_⟩
      · rcases List.mem_cons.mp member with rfl | old
        · exact read
        · exact closed_le h old
      · exact held_le h (LLMTalker.mem_of_mem_moveTo at_k rfl member)
      · rcases (LLMTalker.mem_moveTo at_k _ _ _ h).mp member with here | there
        · exact List.mem_cons.mpr (Or.inl (Option.some.inj here).symm)
        · exact List.mem_cons.mpr (Or.inr
            (freed h ((mem_filterMap_of_getElem? at_k h).mpr (Or.inr there))))
      · rcases List.mem_cons.mp closed with here | old
        · exact (LLMTalker.mem_moveTo at_k _ _ _ _).mpr (Or.inl (congrArg some here.symm))
        · exact LLMTalker.mem_moveTo_of_mem at_k rfl (pointer set old)
  | invoke handle other clear' =>
      have same : (t.apply (.invoked _ handle)).closed = t.closed := if_neg other
      refine ⟨pointer_le, fun h member => ?_, fun h member => ?_, fun h member => ?_,
        fun set closed => ?_⟩
      · exact closed_le h (same ▸ member)
      · exact held_le h (LLMTalker.mem_of_mem_moveTo at_k clear'.1 member)
      · exact same ▸ freed h (LLMTalker.mem_of_mem_moveTo at_k clear'.2 member)
      · exact LLMTalker.mem_moveTo_of_mem at_k rfl (pointer set (same ▸ closed))
  | reset handle =>
      refine ⟨Nat.zero_le _, closed_le, fun h member => ?_, fun h member => ?_,
        fun set _ => absurd rfl set⟩
      · exact held_le h (LLMTalker.mem_of_mem_moveTo at_k rfl member)
      · exact freed h (LLMTalker.mem_of_mem_moveTo at_k rfl member)

theorem tracked_step {enabled : Bool} {t next : LLMTalker} {a : Action} (tracked : Tracked t)
    (taken : t.step enabled a = some next) : Tracked next := by
  cases a with
  | call operation =>
      obtain rfl := Option.some.inj taken
      exact tracked.call operation
  | operation k event =>
      obtain ⟨pc, pc', effect, at_k, moves, rfl⟩ := LLMTalker.step_operation taken
      exact tracked.moved at_k moves

/-! ## Which steps keep the handles alive -/

/-- Every native call was made with a handle that was alive, and so will be the
ones whose handle has been read. -/
structure HandlesAlive (t : LLMTalker) : Prop where
  calls : AliveCalls t
  held : ∀ h ∈ t.operations.filterMap Pc.held, t.Alive h

theorem handlesAlive_init : HandlesAlive LLMTalker.init where
  calls := by simp [AliveCalls, LLMTalker.init]
  held := by simp [LLMTalker.init]

theorem closedApart_at {t : LLMTalker} {k : Nat} {pc : Pc} (at_k : t.operations[k]? = some pc)
    (event : Event) :
    ClosedApart t (.operation k event) ↔
      (pc.reads = true → t.nativePtr ≠ 0 ∧ t.nativePtr ∉ t.operations.filterMap Pc.freed) ∧
        ∀ handle, pc.freeing = some handle → handle ∉ (t.others k).filterMap Pc.held := by
  simp only [ClosedApart, at_k, Option.mem_def, Option.some.injEq, forall_eq']

theorem AliveCalls.record {t : LLMTalker} (calls : AliveCalls t) {method : NativeMethod}
    {handle : Nat} (alive : t.Alive handle) : AliveCalls (t.apply (.invoked method handle)) := by
  intro call member
  rcases List.mem_append.mp member with old | new
  · exact calls call old
  · rw [List.mem_singleton.mp new]
    exact decide_eq_true alive

theorem handlesAlive_moved_iff {t : LLMTalker} (tracked : Tracked t) (before : HandlesAlive t)
    {k : Nat} {pc pc' : Pc} {effect : Effect} (at_k : t.operations[k]? = some pc)
    (moves : Pc.Moves t.nativePtr pc pc' effect) (event : Event) :
    HandlesAlive ((t.apply effect).moveTo k pc') ↔ ClosedApart t (.operation k event) := by
  have others : ∀ h ∈ (t.others k).filterMap Pc.held, t.Alive h :=
    fun h member => before.held h ((mem_filterMap_of_getElem? at_k h).mpr (Or.inr member))
  rw [closedApart_at at_k]
  cases moves with
  | plain clear reads clear' =>
      refine iff_of_true ⟨before.calls, fun h member => ?_⟩
        ⟨fun read => absurd read (by simp [reads]), fun handle free => ?_⟩
      · exact before.held h (LLMTalker.mem_of_mem_moveTo at_k clear'.1 member)
      · exact absurd free (by simp [clear.freeing])
  | load =>
      refine iff_of_true ⟨before.calls, fun h member => ?_⟩ ⟨nofun, nofun⟩
      obtain ⟨positive, returned, notClosed⟩ :=
        before.held h (LLMTalker.mem_of_mem_moveTo at_k rfl member)
      exact ⟨positive, Nat.le_succ_of_le returned, notClosed⟩
  | read method =>
      have pointer : HandlesAlive ((t.apply .none).moveTo k (.invoke method t.nativePtr)) ↔
          t.Alive t.nativePtr := by
        constructor
        · intro next
          exact next.held _ ((LLMTalker.mem_moveTo at_k _ _ _ _).mpr (Or.inl rfl))
        · refine fun alive => ⟨before.calls, fun h member => ?_⟩
          rcases (LLMTalker.mem_moveTo at_k _ _ _ h).mp member with here | there
          · rw [← Option.some.inj here]
            exact alive
          · exact others h there
      rw [pointer, tracked.alive_iff]
      simp [Pc.reads, Pc.freeing]
  | free handle =>
      have alive := before.held handle ((mem_filterMap_of_getElem? at_k handle).mpr (Or.inl rfl))
      constructor
      · refine fun next => ⟨nofun, fun handle' same member => ?_⟩
        cases same
        have closed : handle ∉ handle :: t.closed :=
          (next.held handle ((LLMTalker.mem_moveTo at_k _ _ _ _).mpr (Or.inr member))).2.2
        exact closed List.mem_cons_self
      · rintro ⟨_, alone⟩
        refine ⟨before.calls.record alive, fun h member => ?_⟩
        have there := ((LLMTalker.mem_moveTo at_k _ _ _ h).mp member).resolve_left (by simp [Pc.held])
        obtain ⟨positive, returned, notClosed⟩ := others h there
        refine ⟨positive, returned, fun closed => ?_⟩
        rcases List.mem_cons.mp closed with rfl | old
        · exact alone h rfl there
        · exact notClosed old
  | invoke handle other clear' =>
      have alive := before.held handle ((mem_filterMap_of_getElem? at_k handle).mpr (Or.inl rfl))
      have same : (t.apply (.invoked _ handle)).closed = t.closed := if_neg other
      refine iff_of_true ⟨before.calls.record alive, fun h member => ?_⟩
        ⟨nofun, fun handle' free => ?_⟩
      · obtain ⟨positive, returned, notClosed⟩ :=
          before.held h (LLMTalker.mem_of_mem_moveTo at_k clear'.1 member)
        exact ⟨positive, returned, same ▸ notClosed⟩
      · rw [Pc.freeing_invoke other] at free
        cases free
  | reset handle =>
      refine iff_of_true ⟨before.calls, fun h member => ?_⟩ ⟨nofun, nofun⟩
      exact before.held h (LLMTalker.mem_of_mem_moveTo at_k rfl member)

theorem handlesAlive_step_iff {enabled : Bool} {t next : LLMTalker} {a : Action}
    (tracked : Tracked t) (before : HandlesAlive t) (taken : t.step enabled a = some next) :
    HandlesAlive next ↔ ClosedApart t a := by
  cases a with
  | call operation =>
      obtain rfl := Option.some.inj taken
      have held : Pc.held operation.entry = none := by cases operation <;> rfl
      refine iff_of_true ⟨before.calls, fun h member => ?_⟩ trivial
      exact before.held h (by simpa [held] using member)
  | operation k event =>
      obtain ⟨pc, pc', effect, at_k, moves, rfl⟩ := LLMTalker.step_operation taken
      exact handlesAlive_moved_iff tracked before at_k moves event

/-- No call was made with a dead handle, and none is about to be, exactly in the
runs whose steps all keep apart from `close`. -/
theorem handlesAlive_iff (enabled : Bool) (actions : List Action) :
    Visits (LLMTalker.step enabled) HandlesAlive .init actions ↔
      StepsMeet (LLMTalker.step enabled) ClosedApart .init actions :=
  Machine.visits_iff_stepsMeet (fun _ _ _ tracked taken => tracked_step tracked taken)
    (fun _ _ _ tracked before taken => handlesAlive_step_iff tracked before taken)
    tracked_init handlesAlive_init

/-- With or without assertions, in a run whose steps all keep apart from `close`
every native call is made with a handle that is alive. -/
theorem aliveCalls_of_closedApart {enabled : Bool} {actions : List Action}
    (apart : StepsMeet (LLMTalker.step enabled) ClosedApart .init actions) :
    Visits (LLMTalker.step enabled) AliveCalls .init actions :=
  ((handlesAlive_iff enabled actions).mpr apart).mono fun _ alive => alive.calls

/-! ## Closing during a reply -/

def collecting : List Action :=
  [.call .create, .operation 0 (.returns []), .call .getResponse, .operation 1 .run,
    .operation 1 .run, .operation 1 (.returns []), .operation 1 .run,
    .operation 1 (.returns (MineGPT.Ui.kstring "Hi"))]

def collected : List Action :=
  [.operation 1 .run, .operation 1 .run, .operation 1 (.returns endMarker), .operation 1 .run,
    .operation 1 (.returns [])]

def closing : List Action :=
  [.call .close, .operation 2 .run, .operation 2 .run, .operation 2 (.returns []),
    .operation 2 .run]

/-- `close` after the end of the reply. -/
theorem aliveCalls_of_closedApart_after :
    Visits (LLMTalker.step false) AliveCalls .init (collecting ++ collected ++ closing) :=
  aliveCalls_of_closedApart (by decide +kernel)

/-- `close` between two pieces: the flow goes on and calls `completionLoop` and
`stopCompletion` with 0. -/
theorem not_aliveCalls_closing :
    (runSteps (LLMTalker.step false) .init (collecting ++ closing ++ collected)).map
        (fun t => t.invocations.drop 3) =
      some [⟨.completionLoop, 0, false⟩, ⟨.stopCompletion, 0, false⟩] ∧
    ¬ Visits (LLMTalker.step false) AliveCalls .init (collecting ++ closing ++ collected) := by
  have run : (runSteps (LLMTalker.step false) .init (collecting ++ closing ++ collected)).map
      (fun t => t.invocations.drop 3) =
      some [⟨.completionLoop, 0, false⟩, ⟨.stopCompletion, 0, false⟩] := by decide +kernel
  refine ⟨run, fun visits => ?_⟩
  obtain ⟨last, reached, calls⟩ := Option.map_eq_some_iff.mp run
  have made : (⟨.completionLoop, 0, false⟩ : Invocation) ∈ last.invocations :=
    List.mem_of_mem_drop (i := 3) (by rw [calls]; exact List.mem_cons_self)
  exact absurd (visits.finish reached _ made) (by decide)

end MineGPT.Llm
