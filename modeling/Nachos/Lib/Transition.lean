import Mathlib.Data.List.Forall2

/-
  Labelled transition systems with guarded partial steps.

  A system has initial states, a guard that says which
  actions may be tried in a state, and a step function that
  gives `none` when the action fails.

  Main declarations:
    * `Transition.execute_refines`
    * `Transition.execute_invariant`
    * `Transition.Guarded`
    * `Transition.guarded_cons`
    * `Transition.execute_related`
-/

------------------------------------
-- Systems and Runs
------------------------------------

namespace Transition

variable {σ α : Type}

structure System (σ α : Type) where
  init : σ → Prop
  allowed : σ → α → Prop
  step : σ → α → Option σ

namespace System

variable {S : System σ α}

/- Guarded successful steps from one state to another. -/
inductive Run
    (S : System σ α) :
    σ → List α → σ → Prop
| nil (s : σ) : Run S s [] s
| snoc
    {s t u : σ}
    {actions : List α}
    {a : α} :
    Run S s actions t →
    S.allowed t a →
    S.step t a = some u →
    Run S s (actions ++ [a]) u

/- A state that some run from an initial state ends in. -/
def Reachable
    (S : System σ α)
    (t : σ) : Prop :=
  ∃ s actions, S.init s ∧ S.Run s actions t

/- What every guarded step keeps, every run keeps. -/
theorem Run.invariant
    {P : σ → Prop}
    (hStep :
      ∀ s a t, P s → S.allowed s a →
        S.step s a = some t → P t)
    {s t : σ}
    {actions : List α}
    (hRun : S.Run s actions t)
    (hStart : P s) :
    P t := by
  induction hRun with
  | nil => exact hStart
  | snoc _ hAllowed hNext ih =>
      exact hStep _ _ _ ih hAllowed hNext

/- The induction rule for reachable states. -/
theorem Reachable.invariant
    {P : σ → Prop}
    (hInit : ∀ s, S.init s → P s)
    (hStep :
      ∀ s a t, P s → S.allowed s a →
        S.step s a = some t → P t)
    {t : σ}
    (hReach : S.Reachable t) :
    P t := by
  rcases hReach with ⟨s, actions, hStart, hRun⟩
  exact hRun.invariant hStep (hInit s hStart)

theorem Reachable.of_init
    {s : σ}
    (hInit : S.init s) :
    S.Reachable s :=
  ⟨s, [], hInit, Run.nil s⟩

theorem Reachable.of_step
    {s t : σ}
    {a : α}
    (hReach : S.Reachable s)
    (hAllowed : S.allowed s a)
    (hNext : S.step s a = some t) :
    S.Reachable t := by
  rcases hReach with ⟨s₀, actions, hInit, hRun⟩
  exact ⟨s₀, actions ++ [a], hInit,
    hRun.snoc hAllowed hNext⟩

/- The steps before a state with the property is reached. -/
def before
    (S : System σ α)
    (P : σ → Prop) :
    System σ α :=
  { S with
    allowed := fun s a => S.allowed s a ∧ ¬ P s }

/- Try a row of actions, which may fail or be forbidden. -/
def attempt
    (S : System σ α)
    [∀ s a, Decidable (S.allowed s a)]
    (s : σ) :
    List α → Option σ
| [] => some s
| a :: actions =>
    if S.allowed s a then
      (S.step s a).bind fun t => S.attempt t actions
    else
      none

/- A row that succeeds continues a run. -/
theorem Run.of_attempt
    [∀ s a, Decidable (S.allowed s a)]
    {r s t : σ}
    {before actions : List α}
    (hBefore : S.Run r before s)
    (hRun : S.attempt s actions = some t) :
    S.Run r (before ++ actions) t := by
  induction actions generalizing before s with
  | nil =>
      cases hRun
      rw [List.append_nil]
      exact hBefore
  | cons a actions ih =>
      rw [attempt] at hRun
      split at hRun
      · rename_i hAllowed
        rcases Option.bind_eq_some_iff.mp hRun with
          ⟨u, hNext, hRest⟩
        have hAll := ih (hBefore.snoc hAllowed hNext) hRest
        rwa [List.append_assoc] at hAll
      · cases hRun

theorem Reachable.of_attempt
    [∀ s a, Decidable (S.allowed s a)]
    {s t : σ}
    {actions : List α}
    (hReach : S.Reachable s)
    (hRun : S.attempt s actions = some t) :
    S.Reachable t := by
  induction actions generalizing s with
  | nil =>
      cases hRun
      exact hReach
  | cons a actions ih =>
      rw [attempt] at hRun
      split at hRun
      · rename_i hAllowed
        rcases Option.bind_eq_some_iff.mp hRun with
          ⟨u, hNext, hRest⟩
        exact ih (hReach.of_step hAllowed hNext) hRest
      · cases hRun

end System

end Transition

------------------------------------
-- Folds of Partial Steps
------------------------------------

namespace Transition

variable {σ α : Type}

/- The actions that can occur may be known. -/
theorem foldlM_invariant_of_mem
    {step : σ → α → Option σ}
    {P : σ → Prop}
    {actions : List α}
    (hStep :
      ∀ s, ∀ a ∈ actions, ∀ t, P s → step s a = some t → P t)
    {s t : σ}
    (hFold : actions.foldlM step s = some t)
    (hStart : P s) :
    P t := by
  induction actions generalizing s with
  | nil =>
      rw [List.foldlM_nil] at hFold
      cases hFold
      exact hStart
  | cons a actions ih =>
      rw [List.foldlM_cons] at hFold
      rcases Option.bind_eq_some_iff.mp hFold with
        ⟨u, hNext, hRest⟩
      refine ih ?_ hRest
        (hStep s a List.mem_cons_self u hStart hNext)
      intro s b hb
      exact hStep s b (List.mem_cons_of_mem a hb)

/- What every step keeps, a fold of steps keeps. -/
theorem foldlM_invariant
    {step : σ → α → Option σ}
    {P : σ → Prop}
    (hStep : ∀ s a t, P s → step s a = some t → P t)
    {actions : List α}
    {s t : σ}
    (hFold : actions.foldlM step s = some t)
    (hStart : P s) :
    P t :=
  foldlM_invariant_of_mem (fun s a _ => hStep s a) hFold
    hStart

end Transition

------------------------------------
-- Machines with Answers
------------------------------------

namespace Transition

variable {σ τ α β : Type}

/- The answers of a partial machine to a row of requests. -/
def execute
    (step : σ → α → Option (β × σ))
    (s : σ) :
    List α → Option (List β × σ)
| [] => some ([], s)
| a :: requests => do
    let (b, s) ← step s a
    let (answers, s) ← execute step s requests
    some (b :: answers, s)

/- The answers of an abstract machine, which is total. -/
def simulate
    (next : τ → α → β × τ)
    (t : τ) :
    List α → List β × τ
| [] => ([], t)
| a :: requests =>
    let (b, t) := next t a
    let (answers, t) := simulate next t requests
    (b :: answers, t)

/-
  A machine that follows an abstract one step by step gives
  the same answers in every run.  What relates the two may
  speak of the requests that are still to come.
-/
theorem execute_refines
    {step : σ → α → Option (β × σ)}
    {next : τ → α → β × τ}
    {R : List α → σ → τ → Prop}
    (hStep :
      ∀ a requests s t, R (a :: requests) s t →
        ∃ s', step s a = some ((next t a).1, s') ∧
          R requests s' (next t a).2)
    {requests : List α}
    {s : σ}
    {t : τ}
    (hStart : R requests s t) :
    ∃ s',
      execute step s requests =
        some ((simulate next t requests).1, s') ∧
      R [] s' (simulate next t requests).2 := by
  induction requests generalizing s t with
  | nil => exact ⟨s, rfl, hStart⟩
  | cons a requests ih =>
      rcases hStep a requests s t hStart with
        ⟨s₁, hNext, hRel⟩
      rcases ih hRel with ⟨s₂, hRun, hEnd⟩
      refine ⟨s₂, ?_, hEnd⟩
      simp only [execute, hNext, hRun, Option.bind_eq_bind,
        Option.bind_some, simulate]

/- A machine that can always go on goes through a row. -/
theorem execute_invariant
    {step : σ → α → Option (β × σ)}
    {P : List α → σ → Prop}
    (hStep :
      ∀ a requests s, P (a :: requests) s →
        ∃ b s', step s a = some (b, s') ∧ P requests s')
    {requests : List α}
    {s : σ}
    (hStart : P requests s) :
    ∃ answers s',
      execute step s requests = some (answers, s') ∧
      P [] s' := by
  induction requests generalizing s with
  | nil => exact ⟨[], s, rfl, hStart⟩
  | cons a requests ih =>
      rcases hStep a requests s hStart with
        ⟨b, s₁, hNext, hKept⟩
      rcases ih hKept with ⟨answers, s₂, hRun, hEnd⟩
      refine ⟨b :: answers, s₂, ?_, hEnd⟩
      simp only [execute, hNext, hRun, Option.bind_eq_bind,
        Option.bind_some]

end Transition

------------------------------------
-- Two Machines
------------------------------------

namespace Transition

variable {σ τ α γ β δ : Type}

/- Every request of a row is allowed where it is made. -/
def Guarded
    (step : σ → α → Option (β × σ))
    (allowed : σ → α → Prop)
    (s : σ) :
    List α → Prop
| [] => True
| a :: requests =>
    allowed s a ∧
      ∀ b t, step s a = some (b, t) →
        Guarded step allowed t requests

theorem guarded_cons
    {step : σ → α → Option (β × σ)}
    {allowed : σ → α → Prop}
    {s t : σ}
    {a : α}
    {b : β}
    {requests : List α}
    (hAllowed : allowed s a)
    (hNext : step s a = some (b, t))
    (hRest : Guarded step allowed t requests) :
    Guarded step allowed s (a :: requests) := by
  refine ⟨hAllowed, ?_⟩
  intro b' t' hNext'
  rw [hNext] at hNext'
  cases hNext'
  exact hRest

/-
  Machines whose steps keep them related succeed together on
  related requests, with related answers.
-/
theorem execute_related
    {step : σ → α → Option (β × σ)}
    {step' : τ → γ → Option (δ × τ)}
    {allowed : σ → α → Prop}
    {R : σ → τ → Prop}
    {Request : α → γ → Prop}
    {Answer : β → δ → Prop}
    (hStep :
      ∀ s t a c, R s t → allowed s a → Request a c →
        ∃ b s' d t',
          step s a = some (b, s') ∧
          step' t c = some (d, t') ∧
          Answer b d ∧ R s' t')
    {requests : List α}
    {requests' : List γ}
    (hRequests : List.Forall₂ Request requests requests')
    {s : σ}
    {t : τ}
    (hGuarded : Guarded step allowed s requests)
    (hStart : R s t) :
    ∃ answers s' answers' t',
      execute step s requests = some (answers, s') ∧
      execute step' t requests' = some (answers', t') ∧
      List.Forall₂ Answer answers answers' ∧ R s' t' := by
  induction hRequests generalizing s t with
  | nil => exact ⟨[], s, [], t, rfl, rfl, .nil, hStart⟩
  | cons hRequest _ ih =>
      rcases hStep s t _ _ hStart hGuarded.1 hRequest with
        ⟨b, s₁, d, t₁, hNext, hNext', hAnswer, hRel⟩
      rcases ih (hGuarded.2 b s₁ hNext) hRel with
        ⟨answers, s₂, answers', t₂, hRun, hRun', hAnswers,
          hEnd⟩
      refine ⟨b :: answers, s₂, d :: answers', t₂, ?_, ?_,
        .cons hAnswer hAnswers, hEnd⟩
      · simp only [execute, hNext, hRun, Option.bind_eq_bind,
          Option.bind_some]
      · simp only [execute, hNext', hRun',
          Option.bind_eq_bind, Option.bind_some]

end Transition
