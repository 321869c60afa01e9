import Mathlib.Logic.Function.Basic
import Nachos.Lib.Transition

/-
  Tasks that share one machine by putting each other aside.

  One task runs at a time.  The others are kept as contexts,
  each on memory cells that its task owns.  The running task
  may compute as it likes outside the cells of the others,
  launch new tasks on cells nobody owns, retire tasks, and
  give the machine to a task it finds put aside.

  Main declarations:
    * `Multiplex.Action`
    * `Multiplex.Multiplexer.system`
    * `Multiplex.dispatch_resumes`
    * `Multiplex.run_elsewhere`
    * `Multiplex.resumes_after`
-/

------------------------------------
-- Machines That Put Tasks Aside
------------------------------------

namespace Multiplex

variable {ι α ω μ χ β : Type}

/-
  `Holds c P mem` says that the context `c` lies on the cells
  `P` of a memory, `Ready c P m` that a task with the cells
  `P` is about to give the machine `m` to `c`, and
  `Resumed c P m` that `m` goes on with `c`.
-/
structure Multiplexer (α ω μ χ β : Type) where
  memory : μ → α → ω
  scratch : α → Prop
  Holds : χ → (α → Prop) → (α → ω) → Prop
  Ready : χ → (α → Prop) → μ → Prop
  Resumed : χ → (α → Prop) → μ → Prop
  capture : μ → χ
  switch : μ → Option μ
  Launchable : β → Prop
  cells : β → α → Bool
  launch : β → μ → μ
  fresh : β → μ → χ

/- What a machine has to keep to for tasks not to mix. -/
structure Lawful
    (M : Multiplexer α ω μ χ β) : Prop where
  holds_local :
    ∀ c P mem mem',
      M.Holds c P mem →
      (∀ a, P a → mem' a = mem a) →
      M.Holds c P mem'
  switch_spec :
    ∀ c P Q m,
      M.Ready c P m →
      M.Holds c Q (M.memory m) →
      (∀ a, P a → ¬ Q a) →
      (∀ a, M.scratch a → ¬ P a ∧ ¬ Q a) →
      ∃ m', M.switch m = some m' ∧
        M.Resumed c Q m' ∧
        M.Holds (M.capture m) P (M.memory m') ∧
        ∀ a, ¬ P a → ¬ Q a → ¬ M.scratch a →
          M.memory m' a = M.memory m a
  launch_holds :
    ∀ b m, M.Launchable b →
      M.Holds (M.fresh b m) (fun a => M.cells b a = true)
        (M.memory (M.launch b m))
  launch_frame :
    ∀ b m a, M.Launchable b → M.cells b a = false →
      M.memory (M.launch b m) a = M.memory m a

structure State (ι α μ χ : Type) where
  machine : μ
  owner : α → Option ι
  current : ι
  suspended : ι → Option χ

/- The cells of a task. -/
def State.Owned
    (s : State ι α μ χ)
    (j : ι)
    (a : α) : Prop :=
  s.owner a = some j

inductive Action (ι μ β : Type) where
| compute (m : μ)
| launch (j : ι) (b : β)
| dispatch (j : ι)
| retire (j : ι)

end Multiplex

------------------------------------
-- The System of All Tasks
------------------------------------

namespace Multiplex

namespace Multiplexer

variable {ι α ω μ χ β : Type} [DecidableEq ι]

def Allowed
    (M : Multiplexer α ω μ χ β)
    (s : State ι α μ χ) :
    Action ι μ β → Prop
| .compute m =>
    ∀ a j, s.Owned j a → j ≠ s.current →
      M.memory m a = M.memory s.machine a
| .launch j b =>
    j ≠ s.current ∧ s.suspended j = none ∧
    M.Launchable b ∧
    (∀ a, ¬ s.Owned j a) ∧
    ∀ a, M.cells b a = true →
      s.owner a = none ∧ ¬ M.scratch a
| .dispatch j =>
    ∃ c, s.suspended j = some c ∧
      M.Ready c (s.Owned s.current) s.machine
| .retire j => j ≠ s.current

/- A new task is put aside on cells of its own. -/
def launched
    (M : Multiplexer α ω μ χ β)
    (s : State ι α μ χ)
    (j : ι)
    (b : β) :
    State ι α μ χ :=
  { s with
    machine := M.launch b s.machine
    owner := fun a =>
      if M.cells b a then some j else s.owner a
    suspended :=
      Function.update s.suspended j
        (some (M.fresh b s.machine)) }

/- The machine goes to another task. -/
def given
    (M : Multiplexer α ω μ χ β)
    (s : State ι α μ χ)
    (j : ι)
    (m : μ) :
    State ι α μ χ :=
  { s with
    machine := m
    current := j
    suspended :=
      Function.update
        (Function.update s.suspended s.current
          (some (M.capture s.machine)))
        j none }

/- A task is dropped and its cells are free again. -/
def retired
    (s : State ι α μ χ)
    (j : ι) :
    State ι α μ χ :=
  { s with
    owner := fun a =>
      if s.owner a = some j then none else s.owner a
    suspended := Function.update s.suspended j none }

def next
    (M : Multiplexer α ω μ χ β)
    (s : State ι α μ χ) :
    Action ι μ β → Option (State ι α μ χ)
| .compute m => some { s with machine := m }
| .launch j b => some (M.launched s j b)
| .dispatch j => (M.switch s.machine).map (M.given s j)
| .retire j => some (retired s j)

/- One task runs, and no other has been launched yet. -/
structure Initial
    (M : Multiplexer α ω μ χ β)
    (s : State ι α μ χ) : Prop where
  alone : ∀ j, s.suspended j = none
  scratch : ∀ a, M.scratch a → s.owner a = none

def system
    (M : Multiplexer α ω μ χ β) :
    Transition.System (State ι α μ χ) (Action ι μ β) where
  init := M.Initial
  allowed := M.Allowed
  step := M.next

end Multiplexer

end Multiplex

------------------------------------
-- What Every Run Keeps
------------------------------------

namespace Multiplex

variable {ι α ω μ χ β : Type} [DecidableEq ι]
variable {j : ι}
variable {b : β}

/- Every context lies on the cells of its own task. -/
structure Kept
    (M : Multiplexer α ω μ χ β)
    (s : State ι α μ χ) : Prop where
  holds :
    ∀ j c, s.suspended j = some c →
      M.Holds c (s.Owned j) (M.memory s.machine)
  running : s.suspended s.current = none
  scratch : ∀ a, M.scratch a → s.owner a = none

variable {M : Multiplexer α ω μ χ β}
variable {s : State ι α μ χ}

omit [DecidableEq ι] in
theorem Kept.ne_current
    (hKept : Kept M s)
    {c : χ}
    (hContext : s.suspended j = some c) :
    j ≠ s.current := by
  intro hEq
  rw [hEq, hKept.running] at hContext
  cases hContext

omit [DecidableEq ι] in
theorem Kept.scratch_not_owned
    (hKept : Kept M s)
    {a : α}
    (hScratch : M.scratch a)
    (j : ι) :
    ¬ s.Owned j a := by
  intro hOwned
  rw [State.Owned, hKept.scratch a hScratch] at hOwned
  cases hOwned

omit [DecidableEq ι] in
theorem Kept.compute
    (hLawful : Lawful M)
    (hKept : Kept M s)
    {m : μ}
    (hAllowed : M.Allowed s (.compute m)) :
    Kept M { s with machine := m } where
  holds := fun j c hContext =>
    hLawful.holds_local c _ _ _ (hKept.holds j c hContext)
      (fun a hOwned =>
        hAllowed a j hOwned (hKept.ne_current hContext))
  running := hKept.running
  scratch := hKept.scratch

/- A launch gives nobody's cells away. -/
omit [DecidableEq ι] in
theorem not_cell_of_owned
    {j i : ι}
    {a : α}
    (hAllowed : M.Allowed s (.launch j b))
    (hOwned : s.Owned i a) :
    M.cells b a = false := by
  cases hCell : M.cells b a with
  | false => rfl
  | true =>
      have hNone := (hAllowed.2.2.2.2 a hCell).1
      rw [State.Owned, hNone] at hOwned
      cases hOwned

theorem launched_owned_self
    (hNew : ∀ a, ¬ s.Owned j a) :
    (M.launched s j b).Owned j =
      fun a => M.cells b a = true := by
  funext a
  have hOther := hNew a
  rw [State.Owned] at hOther
  cases hCell : M.cells b a with
  | true => simp [State.Owned, Multiplexer.launched, hCell]
  | false =>
      simp [State.Owned, Multiplexer.launched, hCell,
        hOther]

theorem launched_owned_of_ne
    {j i : ι}
    (hAllowed : M.Allowed s (.launch j b))
    (hTask : i ≠ j) :
    (M.launched s j b).Owned i = s.Owned i := by
  funext a
  cases hCell : M.cells b a with
  | true =>
      have hNone := (hAllowed.2.2.2.2 a hCell).1
      simp [State.Owned, Multiplexer.launched, hCell,
        Ne.symm hTask, hNone]
  | false =>
      simp [State.Owned, Multiplexer.launched, hCell]

theorem Kept.launch
    (hLawful : Lawful M)
    (hKept : Kept M s)
    (hAllowed : M.Allowed s (.launch j b)) :
    Kept M (M.launched s j b) := by
  rcases id hAllowed with
    ⟨hCurrent, _, hLaunchable, hNew, hFree⟩
  refine ⟨?_, ?_, ?_⟩
  · intro i c hContext
    by_cases hTask : i = j
    · subst hTask
      simp only [Multiplexer.launched,
        Function.update_self] at hContext
      cases hContext
      rw [launched_owned_self hNew]
      exact hLawful.launch_holds b s.machine hLaunchable
    · simp only [Multiplexer.launched,
        Function.update_of_ne hTask] at hContext
      rw [launched_owned_of_ne hAllowed hTask]
      refine hLawful.holds_local c _ _ _
        (hKept.holds i c hContext) ?_
      intro a hOwned
      exact hLawful.launch_frame b s.machine a hLaunchable
        (not_cell_of_owned hAllowed hOwned)
  · simp only [Multiplexer.launched,
      Function.update_of_ne (Ne.symm hCurrent)]
    exact hKept.running
  · intro a hScratch
    have hCell : ¬ M.cells b a = true :=
      fun hCell => (hFree a hCell).2 hScratch
    simp only [Multiplexer.launched, if_neg hCell]
    exact hKept.scratch a hScratch

theorem retired_owned_of_ne
    {j i : ι}
    (hTask : i ≠ j) :
    (Multiplexer.retired s j).Owned i = s.Owned i := by
  funext a
  by_cases hOwner : s.owner a = some j
  · simp [State.Owned, Multiplexer.retired, hOwner,
      Ne.symm hTask]
  · simp [State.Owned, Multiplexer.retired, hOwner]

theorem Kept.retire
    (hKept : Kept M s)
    (j : ι) :
    Kept M (Multiplexer.retired s j) := by
  refine ⟨?_, ?_, ?_⟩
  · intro i c hContext
    by_cases hTask : i = j
    · subst hTask
      simp only [Multiplexer.retired,
        Function.update_self] at hContext
      cases hContext
    · simp only [Multiplexer.retired,
        Function.update_of_ne hTask] at hContext
      rw [retired_owned_of_ne hTask]
      exact hKept.holds i c hContext
  · by_cases hTask : s.current = j
    · simp only [Multiplexer.retired, hTask,
        Function.update_self]
    · simp only [Multiplexer.retired,
        Function.update_of_ne hTask]
      exact hKept.running
  · intro a hScratch
    simp only [Multiplexer.retired,
      hKept.scratch a hScratch]
    rfl

/-
  A task that is given the machine is resumed; the one that
  gave it lies on its own cells; no other is disturbed.
-/
theorem Kept.dispatch
    (hLawful : Lawful M)
    (hKept : Kept M s)
    {c : χ}
    (hContext : s.suspended j = some c)
    (hReady :
      M.Ready c (s.Owned s.current) s.machine) :
    ∃ m, M.switch s.machine = some m ∧
      M.Resumed c (s.Owned j) m ∧
      Kept M (M.given s j m) := by
  have hOther := hKept.ne_current hContext
  have hApart :
      ∀ a, s.Owned s.current a → ¬ s.Owned j a := by
    intro a hMine hYours
    exact hOther (Option.some.inj (hYours.symm.trans hMine))
  rcases hLawful.switch_spec c (s.Owned s.current)
      (s.Owned j) s.machine hReady
      (hKept.holds j c hContext) hApart
      (fun a hScratch =>
        ⟨hKept.scratch_not_owned hScratch _,
          hKept.scratch_not_owned hScratch _⟩) with
    ⟨m, hSwitch, hResumed, hHolds, hFrame⟩
  refine ⟨m, hSwitch, hResumed, ?_,
    Function.update_self _ _ _, hKept.scratch⟩
  intro i d hSuspended
  have hNew : i ≠ j := by
    intro hEq
    rw [hEq, Multiplexer.given] at hSuspended
    simp only [Function.update_self] at hSuspended
    cases hSuspended
  simp only [Multiplexer.given,
    Function.update_of_ne hNew] at hSuspended
  by_cases hOld : i = s.current
  · rw [hOld, Function.update_self] at hSuspended
    cases hSuspended
    rw [hOld]
    exact hHolds
  · rw [Function.update_of_ne hOld] at hSuspended
    refine hLawful.holds_local d _ _ _
      (hKept.holds i d hSuspended) ?_
    intro a hOwned
    refine hFrame a ?_ ?_ ?_
    · intro hMine
      exact hOld (Option.some.inj (hOwned.symm.trans hMine))
    · intro hYours
      exact hNew (Option.some.inj (hOwned.symm.trans hYours))
    · intro hScratch
      exact hKept.scratch_not_owned hScratch i hOwned

/- What every task of every run can count on. -/
theorem reachable_kept
    (hLawful : Lawful M)
    (hReach : M.system.Reachable s) :
    Kept M s := by
  refine hReach.invariant ?_ ?_
  · intro s hInit
    refine ⟨?_, hInit.alone _, hInit.scratch⟩
    intro j c hContext
    rw [hInit.alone j] at hContext
    cases hContext
  · intro s action t hKept hAllowed hStep
    cases action with
    | compute m =>
        cases hStep
        exact hKept.compute hLawful hAllowed
    | launch j b =>
        cases hStep
        exact hKept.launch hLawful hAllowed
    | retire j =>
        cases hStep
        exact hKept.retire j
    | dispatch j =>
        rcases hAllowed with ⟨c, hContext, hReady⟩
        rcases hKept.dispatch hLawful hContext hReady with
          ⟨m, hSwitch, _, hNext⟩
        rcases Option.map_eq_some_iff.mp hStep with
          ⟨m', hSwitch', rfl⟩
        rw [hSwitch] at hSwitch'
        cases hSwitch'
        exact hNext

/- In every run, a task goes on with the context it left. -/
theorem dispatch_resumes
    (hLawful : Lawful M)
    (hReach : M.system.Reachable s)
    {c : χ}
    (hContext : s.suspended j = some c)
    (hReady :
      M.Ready c (s.Owned s.current) s.machine) :
    ∃ t, M.next s (.dispatch j) = some t ∧
      t.current = j ∧ t.owner = s.owner ∧
      t.suspended s.current = some (M.capture s.machine) ∧
      M.Resumed c (s.Owned j) t.machine := by
  have hKept := reachable_kept hLawful hReach
  rcases hKept.dispatch hLawful hContext hReady with
    ⟨m, hSwitch, hResumed, _⟩
  refine ⟨M.given s j m, ?_, rfl, rfl, ?_, hResumed⟩
  · rw [Multiplexer.next, hSwitch, Option.map_some]
  · have hOther := hKept.ne_current hContext
    simp only [Multiplexer.given,
      Function.update_of_ne (Ne.symm hOther),
      Function.update_self]

end Multiplex

------------------------------------
-- Tasks That Wait
------------------------------------

namespace Multiplex

variable {ι α ω μ χ β : Type} [DecidableEq ι]

/- The action is not about this task. -/
def Action.Elsewhere
    (i : ι) :
    Action ι μ β → Prop
| .compute _ => True
| .launch j _ => j ≠ i
| .dispatch j => j ≠ i
| .retire j => j ≠ i

variable {M : Multiplexer α ω μ χ β}
variable {s t u : State ι α μ χ}

/- What other tasks do leaves a waiting task where it is. -/
theorem step_elsewhere
    (hKept : Kept M s)
    {i : ι}
    {c : χ}
    {action : Action ι μ β}
    (hElsewhere : action.Elsewhere i)
    (hContext : s.suspended i = some c)
    (hAllowed : M.Allowed s action)
    (hStep : M.next s action = some t) :
    t.suspended i = some c ∧ t.Owned i = s.Owned i := by
  have hOther := hKept.ne_current hContext
  cases action with
  | compute m =>
      cases hStep
      exact ⟨hContext, rfl⟩
  | launch j b =>
      cases hStep
      refine ⟨?_, launched_owned_of_ne hAllowed
        (Ne.symm hElsewhere)⟩
      simp only [Multiplexer.launched,
        Function.update_of_ne (Ne.symm hElsewhere)]
      exact hContext
  | dispatch j =>
      rcases Option.map_eq_some_iff.mp hStep with
        ⟨m, _, rfl⟩
      refine ⟨?_, rfl⟩
      simp only [Multiplexer.given,
        Function.update_of_ne (Ne.symm hElsewhere),
        Function.update_of_ne hOther]
      exact hContext
  | retire j =>
      cases hStep
      refine ⟨?_, retired_owned_of_ne (Ne.symm hElsewhere)⟩
      simp only [Multiplexer.retired,
        Function.update_of_ne (Ne.symm hElsewhere)]
      exact hContext

/- It waits through any run of the others. -/
theorem run_elsewhere
    (hLawful : Lawful M)
    {actions : List (Action ι μ β)}
    (hReach : M.system.Reachable s)
    (hRun : M.system.Run s actions t)
    {i : ι}
    {c : χ}
    (hElsewhere : ∀ a ∈ actions, a.Elsewhere i)
    (hContext : s.suspended i = some c) :
    M.system.Reachable t ∧
      t.suspended i = some c ∧ t.Owned i = s.Owned i := by
  induction hRun with
  | nil => exact ⟨hReach, hContext, rfl⟩
  | snoc hRun hAllowed hStep ih =>
      rcases ih (fun a ha =>
          hElsewhere a (List.mem_append_left _ ha)) with
        ⟨hReach', hContext', hOwned⟩
      rcases step_elsewhere (reachable_kept hLawful hReach')
          (hElsewhere _ (by simp)) hContext' hAllowed hStep
        with ⟨hNext, hSame⟩
      exact ⟨hReach'.of_step hAllowed hStep, hNext,
        hSame.trans hOwned⟩

/-
  Whatever the others do after a task has given the machine
  away, it goes on with what it had when it gets it back.
-/
theorem resumes_after
    (hLawful : Lawful M)
    (hReach : M.system.Reachable s)
    {j : ι}
    (hAllowed : M.Allowed s (.dispatch j))
    (hStep : M.next s (.dispatch j) = some t)
    {actions : List (Action ι μ β)}
    (hRun : M.system.Run t actions u)
    (hElsewhere : ∀ a ∈ actions, a.Elsewhere s.current)
    (hReady :
      M.Ready (M.capture s.machine) (u.Owned u.current)
        u.machine) :
    ∃ v, M.next u (.dispatch s.current) = some v ∧
      v.current = s.current ∧
      M.Resumed (M.capture s.machine)
        (s.Owned s.current) v.machine := by
  rcases id hAllowed with ⟨c, hContext, hReadyAt⟩
  rcases dispatch_resumes hLawful hReach hContext hReadyAt
    with ⟨t', hNext, _, hOwner, hSuspended, _⟩
  rw [hStep] at hNext
  cases hNext
  have hGiven : M.system.Reachable t :=
    hReach.of_step (a := .dispatch j) hAllowed hStep
  rcases run_elsewhere hLawful hGiven hRun hElsewhere
      hSuspended with
    ⟨hReachable, hWaiting, hOwned⟩
  rcases dispatch_resumes hLawful hReachable hWaiting hReady
    with ⟨v, hDispatch, hCurrent, _, _, hResumed⟩
  refine ⟨v, hDispatch, hCurrent, ?_⟩
  have hCells :
      u.Owned s.current = s.Owned s.current := by
    rw [hOwned]
    funext a
    rw [State.Owned, State.Owned, hOwner]
  rw [← hCells]
  exact hResumed

end Multiplex
