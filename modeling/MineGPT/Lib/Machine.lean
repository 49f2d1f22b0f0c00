import Mathlib.Data.List.Basic

/-!
# Runs of a partial transition function

A machine is a partial function `step : σ → α → Option σ`: in state `s` the
action `a` is either refused or leads to one next state.  All nondeterminism
(an interleaving, the answer of a foreign call) is in the list of actions.

`Visits P s as` says that `P` holds in every state the run visits, `StepsMeet G
s as` that every step taken from a state `s'` under an action `a` meets `G s'
a`.  The two induction rules below turn a fact about one step into a fact about
every run.
-/

set_option autoImplicit false

namespace MineGPT.Lib.Machine

section Runs

variable {σ α : Type} (step : σ → α → Option σ)

def runSteps : σ → List α → Option σ
  | s, [] => some s
  | s, a :: rest => (step s a).bind fun next => runSteps next rest

def Visits (P : σ → Prop) : σ → List α → Prop
  | s, [] => P s
  | s, a :: rest => P s ∧ ∀ next, step s a = some next → Visits P next rest

def StepsMeet (G : σ → α → Prop) : σ → List α → Prop
  | _, [] => True
  | s, a :: rest => ∀ next, step s a = some next → G s a ∧ StepsMeet G next rest

instance Visits.decidable (P : σ → Prop) [DecidablePred P] :
    (s : σ) → (actions : List α) → Decidable (Visits step P s actions)
  | s, [] => inferInstanceAs (Decidable (P s))
  | s, a :: rest =>
    match h : step s a with
    | none => decidable_of_iff (P s) (by simp [Visits, h])
    | some next =>
      have := Visits.decidable P next rest
      decidable_of_iff (P s ∧ Visits step P next rest) (by simp [Visits, h])

instance StepsMeet.decidable (G : σ → α → Prop) [∀ s a, Decidable (G s a)] :
    (s : σ) → (actions : List α) → Decidable (StepsMeet step G s actions)
  | _, [] => isTrue trivial
  | s, a :: rest =>
    match h : step s a with
    | none => isTrue (by simp [StepsMeet, h])
    | some next =>
      have := StepsMeet.decidable G next rest
      decidable_of_iff (G s a ∧ StepsMeet step G next rest) (by simp [StepsMeet, h])

variable {step}

theorem Visits.start {P : σ → Prop} {s : σ} {actions : List α}
    (visits : Visits step P s actions) : P s := by
  cases actions with
  | nil => exact visits
  | cons a rest => exact visits.1

theorem Visits.finish {P : σ → Prop} : ∀ {actions : List α} {s t : σ},
    Visits step P s actions → runSteps step s actions = some t → P t := by
  intro actions
  induction actions with
  | nil =>
      intro s t visits run
      rw [← Option.some.inj run]
      exact visits
  | cons a rest ih =>
      intro s t visits run
      obtain ⟨next, taken, later⟩ := Option.bind_eq_some_iff.mp run
      exact ih (visits.2 next taken) later

theorem Visits.mono {P Q : σ → Prop} (implies : ∀ s, P s → Q s) :
    ∀ {actions : List α} {s : σ}, Visits step P s actions → Visits step Q s actions := by
  intro actions
  induction actions with
  | nil => intro s visits; exact implies s visits
  | cons a rest ih =>
      intro s visits
      exact ⟨implies s visits.1, fun next taken => ih (visits.2 next taken)⟩

theorem stepsMeet_true : ∀ {actions : List α} {s : σ},
    StepsMeet step (fun _ _ => True) s actions := by
  intro actions
  induction actions with
  | nil => intro s; trivial
  | cons a rest ih => intro s next _; exact ⟨trivial, ih⟩

theorem stepsMeet_of_forall {G : α → Prop} : ∀ {actions : List α} {s : σ},
    (∀ a ∈ actions, G a) → StepsMeet step (fun _ => G) s actions := by
  intro actions
  induction actions with
  | nil => intro s _; trivial
  | cons a rest ih =>
      intro s all next _
      exact ⟨all a (by simp), ih fun b member => all b (by simp [member])⟩

theorem Visits.stepsMeet {P : σ → Prop} {G : σ → α → Prop} (each : ∀ s a, P s → G s a) :
    ∀ {actions : List α} {s : σ}, Visits step P s actions → StepsMeet step G s actions := by
  intro actions
  induction actions with
  | nil => intro s _; trivial
  | cons a rest ih =>
      intro s visits next taken
      exact ⟨each s a visits.1, ih (visits.2 next taken)⟩

/-- An invariant holds in every state of a run. -/
theorem visits_of_keep {P : σ → Prop}
    (keep : ∀ s a next, P s → step s a = some next → P next) :
    ∀ {actions : List α} {s : σ}, P s → Visits step P s actions := by
  intro actions
  induction actions with
  | nil => intro s start; exact start
  | cons a rest ih =>
      intro s start
      exact ⟨start, fun next taken => ih (keep s a next start taken)⟩

/-- What is true at the start and kept by every step that meets `G` is true in
every state of a run all of whose steps meet `G`. -/
theorem visits_of_stepsMeet {P : σ → Prop} {G : σ → α → Prop}
    (keep : ∀ s a next, P s → G s a → step s a = some next → P next) :
    ∀ {actions : List α} {s : σ}, P s → StepsMeet step G s actions →
      Visits step P s actions := by
  intro actions
  induction actions with
  | nil => intro s start _; exact start
  | cons a rest ih =>
      intro s start meets
      refine ⟨start, fun next taken => ?_⟩
      obtain ⟨guard, later⟩ := meets next taken
      exact ih (keep s a next start guard taken) later

/-- Where one step meets `F` and keeps `P` exactly when it meets `G`, the steps of
a run meet `F` and it visits only states with `P` exactly when all its steps meet
`G`.  `I` is an invariant the step may rely on. -/
theorem meets_and_visits_iff_stepsMeet {I P : σ → Prop} {F G : σ → α → Prop}
    (keepI : ∀ s a next, I s → step s a = some next → I next)
    (exact_step : ∀ s a next, I s → P s → step s a = some next → (F s a ∧ P next ↔ G s a)) :
    ∀ {actions : List α} {s : σ}, I s → P s →
      (StepsMeet step F s actions ∧ Visits step P s actions ↔ StepsMeet step G s actions) := by
  intro actions
  induction actions with
  | nil => intro s _ start; exact ⟨fun _ => trivial, fun _ => ⟨trivial, start⟩⟩
  | cons a rest ih =>
      intro s inv start
      constructor
      · rintro ⟨meets, _, visits⟩ next taken
        obtain ⟨guard, meets⟩ := meets next taken
        have kept : P next := (visits next taken).start
        exact ⟨(exact_step s a next inv start taken).mp ⟨guard, kept⟩,
          (ih (keepI s a next inv taken) kept).mp ⟨meets, visits next taken⟩⟩
      · intro meets
        have each : ∀ next, step s a = some next →
            F s a ∧ StepsMeet step F next rest ∧ Visits step P next rest := by
          intro next taken
          obtain ⟨guard, later⟩ := meets next taken
          obtain ⟨here, kept⟩ := (exact_step s a next inv start taken).mpr guard
          exact ⟨here, (ih (keepI s a next inv taken) kept).mpr later⟩
        refine ⟨fun next taken => ?_, start, fun next taken => ?_⟩
        · exact ⟨(each next taken).1, (each next taken).2.1⟩
        · exact (each next taken).2.2

theorem visits_iff_stepsMeet {I P : σ → Prop} {G : σ → α → Prop}
    (keepI : ∀ s a next, I s → step s a = some next → I next)
    (exact_step : ∀ s a next, I s → P s → step s a = some next → (P next ↔ G s a))
    {actions : List α} {s : σ} (inv : I s) (start : P s) :
    Visits step P s actions ↔ StepsMeet step G s actions := by
  have both : StepsMeet step (fun _ _ => True) s actions ∧ Visits step P s actions ↔
      StepsMeet step G s actions :=
    meets_and_visits_iff_stepsMeet keepI
      (fun s a next inv start taken =>
        (and_iff_right trivial).trans (exact_step s a next inv start taken)) inv start
  rwa [and_iff_right stepsMeet_true] at both

/-- What no step brings back holds along a run that ends with it. -/
theorem visits_iff_of_finish {P : σ → Prop}
    (back : ∀ s a next, step s a = some next → P next → P s) :
    ∀ {actions : List α} {s t : σ}, runSteps step s actions = some t →
      (Visits step P s actions ↔ P t) := by
  intro actions
  induction actions with
  | nil =>
      intro s t run
      rw [← Option.some.inj run]
      exact Iff.rfl
  | cons a rest ih =>
      intro s t run
      obtain ⟨next, taken, later⟩ := Option.bind_eq_some_iff.mp run
      have rest := ih later
      refine ⟨fun visits => rest.mp (visits.2 next taken), fun last => ?_⟩
      have visits := rest.mpr last
      refine ⟨back s a next taken visits.start, fun other same => ?_⟩
      obtain rfl := Option.some.inj (taken.symm.trans same)
      exact visits

theorem runSteps_append (s : σ) (first second : List α) :
    runSteps step s (first ++ second) =
      (runSteps step s first).bind fun next => runSteps step next second := by
  induction first generalizing s with
  | nil => rfl
  | cons a rest ih =>
      simp only [List.cons_append, runSteps]
      cases step s a with
      | none => rfl
      | some next => exact ih next

theorem runSteps_history {P : List α → σ → Prop}
    (keep : ∀ past s a next, P past s → step s a = some next → P (past ++ [a]) next) :
    ∀ {actions past : List α} {s t : σ}, P past s → runSteps step s actions = some t →
      P (past ++ actions) t := by
  intro actions
  induction actions with
  | nil =>
      intro past s t start run
      rw [← Option.some.inj run, List.append_nil]
      exact start
  | cons a rest ih =>
      intro past s t start run
      obtain ⟨next, taken, later⟩ := Option.bind_eq_some_iff.mp run
      have reached := ih (keep past s a next start taken) later
      rwa [List.append_assoc, List.singleton_append] at reached

/-- Every action of the list meets `G` in the state in which it comes, taken or not. -/
def Guarded (step : σ → α → Option σ) (G : σ → α → Prop) : σ → List α → Prop
  | _, [] => True
  | s, a :: rest => G s a ∧ ∀ next, step s a = some next → Guarded step G next rest

/-- Where the actions with `A` are taken exactly if they meet `G`, and then keep `P` and have
the effect `F`, a run of such actions comes to its end exactly if each of them meets `G`, and
as far as it comes it keeps `P` with these effects. -/
theorem run_of_guarded {P : σ → Prop} {A : α → Prop} {G : σ → α → Prop} {F : σ → α → σ → Prop}
    (taken : ∀ s a, P s → A a → ((∃ next, step s a = some next) ↔ G s a))
    (each : ∀ s a next, P s → A a → step s a = some next → P next ∧ F s a next) :
    ∀ {actions : List α} {s : σ}, P s → (∀ a ∈ actions, A a) →
      ((∃ t, runSteps step s actions = some t) ↔ Guarded step G s actions) ∧
      Visits step P s actions ∧
      StepsMeet step (fun s a => ∀ next, step s a = some next → F s a next) s actions := by
  intro actions
  induction actions with
  | nil => exact fun start _ => ⟨iff_of_true ⟨_, rfl⟩ trivial, start, trivial⟩
  | cons a rest ih =>
      intro s start all
      have allowed := all a (by simp)
      have later : ∀ next, step s a = some next → _ := fun next here =>
        @ih next (each s a next start allowed here).1 fun b member => all b (by simp [member])
      refine ⟨⟨?_, ?_⟩, ⟨start, fun next here => (later next here).2.1⟩, fun next here =>
        ⟨fun other same => (each s a other start allowed same).2, (later next here).2.2⟩⟩
      · rintro ⟨t, run⟩
        obtain ⟨next, here, run⟩ := Option.bind_eq_some_iff.mp run
        refine ⟨(taken s a start allowed).mp ⟨next, here⟩, fun other same => ?_⟩
        obtain rfl := Option.some.inj (here.symm.trans same)
        exact (later next here).1.mp ⟨t, run⟩
      · rintro ⟨guard, guarded⟩
        obtain ⟨next, here⟩ := (taken s a start allowed).mpr guard
        obtain ⟨t, run⟩ := (later next here).1.mpr (guarded next here)
        exact ⟨t, Option.bind_eq_some_iff.mpr ⟨next, here, run⟩⟩

/-- Where each step of one machine is matched by a run of another one, so is
each run.  `I` is an invariant of the first machine. -/
theorem runSteps_of_simulation {τ β : Type} {fine : τ → β → Option τ} {embed : σ → τ}
    {I : σ → Prop}
    (each : ∀ s a s', I s → step s a = some s' →
      I s' ∧ ∃ actions, runSteps fine (embed s) actions = some (embed s')) :
    ∀ (actions : List α) (s s' : σ), I s → runSteps step s actions = some s' →
      ∃ fineActions, runSteps fine (embed s) fineActions = some (embed s') := by
  intro actions
  induction actions with
  | nil =>
      intro s s' _ run
      exact ⟨[], congrArg (Option.map embed) run⟩
  | cons a rest ih =>
      intro s s' inv run
      simp only [runSteps, Option.bind_eq_some_iff] at run
      obtain ⟨next, taken, later⟩ := run
      obtain ⟨kept, first, here⟩ := each s a next inv taken
      obtain ⟨second, there⟩ := ih next s' kept later
      refine ⟨first ++ second, ?_⟩
      rw [runSteps_append, here]
      exact there

end Runs

end MineGPT.Lib.Machine
