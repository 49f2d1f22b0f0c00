import Mathlib.Data.List.Pairwise
import MineGPT.Native.Run

/-!
# What one turn leaves for the next

The reply text and the pending text outlive the turn they belong to.
`stopCompletion` clears the first, nothing clears the second, and a turn that
is abandoned clears neither.  So the next turn starts clean exactly when an
abandoned turn sampled no text and a turn that was stopped did not end inside a
character.
-/

set_option autoImplicit false

namespace MineGPT.Native

open MineGPT.Lib.ByteString MineGPT.Chat LLMInference

structure StartsClean (s : LLMInference) : Prop where
  response : s.response = []
  cache : s.cacheResponseTokens = []

/-- The strings of the turn and the assistant message stored by its
`completionLoop` calls come from the pieces sampled in it. -/
structure Turn.OwnText (t : Turn) : Prop where
  strings : t.loop.chunks.flatten ++ t.loop.closing <+: t.loop.pieces.flatten
  stored : ∀ message ∈ t.loop.state.messages.drop t.started.messages.length,
    message.content.bytes <+: t.loop.pieces.flatten

/-- Whenever `startCompletion` returns, the turn starts clean and has only its
own text. -/
def TurnsIsolated (turns : List Turn) : Prop :=
  ∀ t ∈ turns, t.startReturned = true → StartsClean t.started ∧ t.OwnText

/-- A turn whose text is all gone when it is over: it reached `stopCompletion`
with no unfinished character, or it sampled no text at all. -/
def Turn.LeavesNothing (t : Turn) : Prop :=
  if t.loop.exit.reachesStop then residue [] t.loop.pieces = []
  else t.loop.pieces.flatten = []

def LeavingNothing (turns : List Turn) : Prop :=
  turns.Pairwise fun t later => later.startReturned = true → t.LeavesNothing

theorem Turn.Law.ownText {t : Turn} (law : t.Law) (clean : StartsClean t.started) :
    t.OwnText := by
  have conserved := law.loop.conserved
  rw [clean.cache, List.nil_append] at conserved
  have strings : t.loop.chunks.flatten ++ t.loop.closing <+: t.loop.pieces.flatten :=
    ⟨_, conserved.symm⟩
  refine ⟨strings, ?_⟩
  intro message stored
  by_cases eog : t.loop.exit = .endOfGeneration
  · obtain ⟨_, _, messages, _⟩ := law.loop.ended eog
    rw [messages, List.drop_left, List.mem_singleton] at stored
    subst stored
    simp only [clean.response, List.nil_append, CString.ofBytes_bytes]
    exact ((cstr_le _).trans (List.prefix_append _ _)).trans strings
  · rw [(law.loop.notEnded eog).2, List.drop_length] at stored
    simp at stored

theorem Turn.Law.clean_after_iff {t : Turn} (law : t.Law) (clean : StartsClean t.started) :
    StartsClean t.after ↔ t.LeavesNothing := by
  have cache := law.loop.residue
  rw [clean.cache] at cache
  cases reached : t.loop.exit.reachesStop with
  | true =>
      have stop := law.stopped reached
      simp only [Turn.LeavesNothing, reached, if_true]
      rw [← cache, ← stop.cache]
      exact ⟨fun after => after.cache, fun empty => ⟨stop.response, empty⟩⟩
  | false =>
      simp only [Turn.LeavesNothing, reached, Bool.false_eq_true, if_false]
      have notEog : t.loop.exit ≠ .endOfGeneration := by
        intro eog
        rw [eog] at reached
        cases reached
      have response := (law.loop.notEnded notEog).1
      have conserved := law.loop.conserved
      rw [clean.cache, List.nil_append] at conserved
      rw [clean.response, List.nil_append] at response
      rw [law.left reached, conserved, ← response]
      constructor
      · intro after
        rw [after.response, after.cache]
        rfl
      · intro empty
        obtain ⟨response, cache⟩ := List.append_eq_nil_iff.mp empty
        exact ⟨response, cache⟩

theorem LLMInference.StartFrame.startsClean_iff {query : CString} {s t : LLMInference}
    (frame : StartFrame query s t) : StartsClean t ↔ StartsClean s := by
  constructor
  · intro clean
    exact ⟨frame.response ▸ clean.response, frame.cache ▸ clean.cache⟩
  · intro clean
    exact ⟨frame.response.trans clean.response, frame.cache.trans clean.cache⟩

theorem Turn.Law.clean_of_startFailed {t : Turn} (law : t.Law)
    (failed : t.startReturned = false) : (StartsClean t.after ↔ StartsClean t.before) := by
  have loop := law.startFailed failed
  have left : t.after = t.started := by
    rw [law.left (by simp [loop, responseLoop, LoopExit.reachesStop]), loop]
    rfl
  rw [left]
  exact law.start.startsClean_iff

theorem none_returns_of_dirty : ∀ (inputs : List TurnInput) (s : LLMInference),
    ¬ StartsClean s → TurnsIsolated (runTurns inputs s) →
    ∀ t ∈ runTurns inputs s, t.startReturned = false := by
  intro inputs
  induction inputs with
  | nil => intro s _ _ t member; simp [runTurns] at member
  | cons input rest ih =>
      intro s dirty isolated t member
      obtain ⟨law, before, _⟩ := getResponse_law input.query input.oracles s
      have failed : (getResponse input.query input.oracles s).startReturned = false := by
        by_contra returned
        rw [Bool.not_eq_false] at returned
        have clean := (isolated _ (by simp [runTurns]) returned).1
        rw [law.start.startsClean_iff, before] at clean
        exact dirty clean
      simp only [runTurns, List.mem_cons] at member
      rcases member with here | later
      · rw [here]
        exact failed
      · refine ih _ ?_ ?_ t later
        · rw [law.clean_of_startFailed failed, before]
          exact dirty
        · intro t' member' returned
          exact isolated t' (by simp [runTurns, member']) returned

theorem turnsIsolated_runTurns : ∀ (inputs : List TurnInput) (s : LLMInference),
    StartsClean s →
    (TurnsIsolated (runTurns inputs s) ↔ LeavingNothing (runTurns inputs s)) := by
  intro inputs
  -- induction on the turns; `s` starts clean
  induction inputs with
  | nil => intro s _; simp [runTurns, TurnsIsolated, LeavingNothing]
  | cons input rest ih =>
      intro s clean
      obtain ⟨law, before, _⟩ := getResponse_law input.query input.oracles s
      simp only [runTurns, TurnsIsolated, LeavingNothing, List.forall_mem_cons,
        List.pairwise_cons]
      generalize getResponse input.query input.oracles s = t at law before ⊢
      have started : StartsClean t.started := by
        rw [law.start.startsClean_iff, before]
        exact clean
      have head : t.startReturned = true → StartsClean t.started ∧ t.OwnText :=
        fun _ => ⟨started, law.ownText started⟩
      by_cases leaves : t.LeavesNothing
      · have next := ih t.after ((law.clean_after_iff started).mpr leaves)
        constructor
        · rintro ⟨_, others⟩
          exact ⟨fun _ _ _ => leaves, next.mp others⟩
        · rintro ⟨_, others⟩
          exact ⟨head, next.mpr others⟩
      · have dirty : ¬ StartsClean t.after := mt (law.clean_after_iff started).mp leaves
        constructor
        · rintro ⟨_, others⟩
          have failed := none_returns_of_dirty rest t.after dirty others
          have noneReturns : ∀ t' ∈ runTurns rest t.after, ¬ t'.startReturned = true := by
            intro t' member returned
            rw [failed t' member] at returned
            cases returned
          refine ⟨fun t' member returned => absurd returned (noneReturns t' member), ?_⟩
          exact List.pairwise_of_forall_mem_list fun _ _ t' member returned =>
            absurd returned (noneReturns t' member)
        · rintro ⟨leavesIf, _⟩
          refine ⟨head, fun t' member returned => ?_⟩
          exact absurd (leavesIf t' member returned) leaves

/-- The turns of a session are isolated exactly when every turn that is
followed by another one leaves nothing. -/
theorem turnsIsolated_iff {oracle : LoadOracle} {arguments : LoadArguments}
    {initial : List LlamaChatMessage} {s : LLMInference}
    (opened : openSession oracle arguments initial = .ok s) (inputs : List TurnInput) :
    TurnsIsolated (runTurns inputs s) ↔ LeavingNothing (runTurns inputs s) := by
  have fresh := openSession_fresh opened
  exact turnsIsolated_runTurns inputs s ⟨fresh.response, fresh.cache⟩

theorem turnsIsolated_iff_hello :
    TurnsIsolated (runTurns [turnOf [1, 2], turnOf [1, 2]] (smallSession (lit "Hello") true)) ↔
      LeavingNothing
        (runTurns [turnOf [1, 2], turnOf [1, 2]] (smallSession (lit "Hello") true)) :=
  turnsIsolated_iff (smallSession_opened (lit "Hello") true) [turnOf [1, 2], turnOf [1, 2]]

/-- A turn cancelled after its first piece leaves the piece to the next turn. -/
theorem not_turnsIsolated_cancelled :
    openSession (smallOracle (lit "Hello")) (smallArguments true) [] =
        .ok (smallSession (lit "Hello") true) ∧
      ¬ TurnsIsolated
        (runTurns [turnOf [1], turnOf [1, 2]] (smallSession (lit "Hello") true)) := by
  refine ⟨smallSession_opened _ _, ?_⟩
  intro isolated
  have second : ∃ t ∈ runTurns [turnOf [1], turnOf [1, 2]] (smallSession (lit "Hello") true),
      t.startReturned = true ∧ t.started.response ≠ [] := by decide +kernel
  obtain ⟨t, member, returned, left⟩ := second
  exact left (isolated t member returned).1.response

end MineGPT.Native
