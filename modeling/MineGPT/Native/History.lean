import MineGPT.Native.Run

/-!
# The stored history

At the end of a reply `completionLoop` stores the assistant message and clears
the reply, and `stopCompletion` then stores the cleared reply once more.  So no
completed turn leaves the history as one question and one answer.
-/

set_option autoImplicit false

namespace MineGPT.Native

open MineGPT.Lib.ByteString MineGPT.Chat LLMInference

def texts (message : LlamaChatMessage) : Bytes × Bytes :=
  (message.role.bytes, message.content.bytes)

def Turn.exchange (t : Turn) : List (Bytes × Bytes) :=
  [(lit "user", t.query.bytes), (lit "assistant", t.loop.chunks.flatten)]

/-- After each turn the history is what was held before the first one, followed
by one exchange for every turn so far. -/
def HistoryKept (held : List LlamaChatMessage) (turns : List Turn) : Prop :=
  ∀ (k : Nat) (inside : k < turns.length),
    turns[k].after.messages.map texts =
      held.map texts ++ (turns.take (k + 1)).flatMap Turn.exchange

theorem Turn.Law.not_exchange {t : Turn} (law : t.Law)
    (reached : t.loop.exit.reachesStop = true) (stores : t.before.storeChats = true)
    (empty : t.before.response = []) :
    t.after.messages.map texts ≠ t.before.messages.map texts ++ t.exchange := by
  obtain ⟨ended, inBand⟩ := law.stored reached stores
  intro same
  rcases (reachesStop_iff _).mp reached with eog | marker
  · -- three messages instead of two
    rw [ended eog] at same
    have := congrArg List.length same
    simp [Turn.exchange] at this
  · -- the closing text is part of the answer, though it was not emitted
    rw [inBand marker, empty] at same
    simp only [List.map_append, List.append_cancel_left_eq, Turn.exchange, List.map_cons,
      List.map_nil, List.cons.injEq, texts, and_true, Prod.mk.injEq, assistantMessage,
      CString.ofBytes_bytes, List.nil_append] at same
    have content := same.2.2
    have noNul : 0 ∉ t.loop.chunks.flatten := content ▸ zero_notMem_cstr _
    have closing := (law.loop.inBand marker).1
    rw [cstr_append noNul, closing] at content
    have := congrArg List.length content
    simp only [List.length_append] at this
    have positive : 0 < (lit "[EOG]").length := by decide
    omega

/-- The history law holds of a run of completed turns exactly when there is no
turn in it. -/
theorem historyKept_iff {oracle : LoadOracle} {arguments : LoadArguments}
    {initial : List LlamaChatMessage} {s : LLMInference}
    (opened : openSession oracle arguments initial = .ok s)
    (stores : arguments.storeChats = true) {inputs : List TurnInput}
    (completed : ∀ t ∈ runTurns inputs s, t.ending = .completed) :
    HistoryKept s.messages (runTurns inputs s) ↔ inputs = [] := by
  constructor
  · intro kept
    cases inputs with
    | nil => rfl
    | cons input rest =>
        exfalso
        have fresh := openSession_fresh opened
        obtain ⟨law, before, _⟩ := getResponse_law input.query input.oracles s
        have reached := law.completed (completed _ (by simp [runTurns]))
        have first := kept 0 (by simp [runTurns])
        simp only [runTurns, List.getElem_cons_zero, Nat.zero_add, List.take_succ_cons,
          List.take_zero, List.flatMap_cons, List.flatMap_nil, List.append_nil] at first
        apply law.not_exchange reached
        · rw [before, fresh.storeChats, stores]
        · rw [before, fresh.response]
        · rw [before]
          exact first
  · intro none
    subst none
    intro k inside
    simp [runTurns] at inside

theorem historyKept_iff_hello :
    HistoryKept [] (runTurns [turnOf [1, 2]] (smallSession (lit "Hello") true)) ↔
      [turnOf [1, 2]] = [] :=
  historyKept_iff (smallSession_opened (lit "Hello") true) rfl (by decide +kernel)

/-- The reply `Hello` is stored, then an empty one. -/
theorem not_historyKept_hello :
    openSession (smallOracle (lit "Hello")) (smallArguments true) [] =
        .ok (smallSession (lit "Hello") true) ∧
      (smallArguments true).storeChats = true ∧
      (∀ t ∈ runTurns [turnOf [1, 2]] (smallSession (lit "Hello") true),
        t.ending = .completed) ∧
      ¬ HistoryKept (smallSession (lit "Hello") true).messages
        (runTurns [turnOf [1, 2]] (smallSession (lit "Hello") true)) := by
  refine ⟨smallSession_opened _ _, rfl, by decide +kernel, ?_⟩
  intro kept
  have first := kept 0 (by decide +kernel)
  revert first
  decide +kernel

end MineGPT.Native
