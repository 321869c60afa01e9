import Nachos.Lib.Transition
import Nachos.Machine.Interrupt

/-
  The invariant rule of the interrupt simulation.

  A property of the state is stable when the elementary
  changes keep it: flags, the clock, taking an interrupt from
  the list or putting it back, and the calls of handlers.
  Then ticks and idling keep it, however many handlers run.

  A property that handlers break for a moment is steady when
  each handler as a whole keeps it.

  Main declarations:
    * `Sim.Steady.oneTick`
    * `Sim.Steady.idle`
    * `Sim.Stable`
    * `Sim.Stable.of_rest`
    * `Sim.Stable.steady`
-/

------------------------------------
-- One Interrupt
------------------------------------

namespace Nachos

variable {H κ ω : Type}

namespace Sim

/-
  All that a check can do: there is nothing pending, or the
  first interrupt is put back, or it fires.  Before that the
  clock may have moved to the interrupt.
-/
theorem checkIfDue_cases
    {dev : Device H κ ω}
    {s t : Sim H κ}
    {advanceClock fired : Bool}
    (hRun :
      s.checkIfDue dev advanceClock = some (fired, t)) :
    s.interrupt.level = .off ∧
    ((s.interrupt.pending = [] ∧ fired = false ∧ t = s) ∨
      ∃ toOccur pending u,
        s.interrupt.pending = toOccur :: pending ∧
        (u = s ∨
          (advanceClock = true ∧
            s.interrupt.stats.totalTicks ≤ toOccur.when ∧
            u = { s with
              interrupt :=
                s.interrupt.advanceTo toOccur.when })) ∧
        ((fired = false ∧
            t = u.setPending
              (PriorityList.insert (·.when) toOccur
                pending)) ∨
          (fired = true ∧
            toOccur.when ≤ u.interrupt.stats.totalTicks ∧
            (u.setPending pending).fire dev toOccur =
              some t))) := by
  unfold Sim.checkIfDue at hRun
  split at hRun
  · rename_i hOff
    refine ⟨hOff, ?_⟩
    split at hRun
    · rename_i hPending
      cases hRun
      exact Or.inl ⟨hPending, rfl, rfl⟩
    · rename_i toOccur pending hPending
      refine Or.inr ⟨toOccur, pending, ?_⟩
      dsimp only at hRun
      split at hRun
      · cases hRun
        exact ⟨s, hPending, Or.inl rfl, Or.inl ⟨rfl, rfl⟩⟩
      · rename_i hNotBack
        -- the clock is at the interrupt or past it
        split at hRun
        · rename_i hLate
          have hClock : advanceClock = true := by
            by_contra hNot
            exact hNotBack
              ⟨hLate, Bool.not_eq_true _ ▸ hNot⟩
          refine ⟨_, hPending,
            Or.inr ⟨hClock, le_of_lt hLate, rfl⟩, ?_⟩
          split at hRun
          · cases hRun
            exact Or.inl ⟨rfl, rfl⟩
          · rcases Option.bind_eq_some_iff.mp hRun with
              ⟨u, hFire, hEq⟩
            cases hEq
            exact Or.inr ⟨rfl, le_rfl, hFire⟩
        · rename_i hNotLate
          refine ⟨s, hPending, Or.inl rfl, ?_⟩
          split at hRun
          · cases hRun
            exact Or.inl ⟨rfl, rfl⟩
          · rcases Option.bind_eq_some_iff.mp hRun with
              ⟨u, hFire, hEq⟩
            cases hEq
            exact Or.inr ⟨rfl, not_lt.mp hNotLate, hFire⟩
  · cases hRun

------------------------------------
-- Steady Properties
------------------------------------

/- Change the flags of the controller. -/
def setFlags
    (s : Sim H κ)
    (level : IntStatus)
    (inHandler yieldOnReturn : Bool)
    (status : MachineStatus) :
    Sim H κ :=
  { s with
    interrupt :=
      { s.interrupt with
        level := level
        inHandler := inHandler
        yieldOnReturn := yieldOnReturn
        status := status } }

/- A property that whole handlers keep. -/
structure Steady
    (dev : Device H κ ω)
    (P : Sim H κ → Prop) : Prop where
  flags :
    ∀ s level inHandler yieldOnReturn status,
      P s →
      P (s.setFlags level inHandler yieldOnReturn status)
  advance :
    ∀ s, P s →
      P { s with interrupt := s.interrupt.advance }
  advanceTo :
    ∀ s when, P s →
      s.interrupt.stats.totalTicks ≤ when →
      P { s with interrupt := s.interrupt.advanceTo when }
  putBack :
    ∀ s toOccur pending, P s →
      s.interrupt.pending = toOccur :: pending →
      P (s.setPending
        (PriorityList.insert (·.when) toOccur pending))
  fire :
    ∀ s toOccur pending t, P s →
      s.interrupt.pending = toOccur :: pending →
      toOccur.when ≤ s.interrupt.stats.totalTicks →
      (s.setPending pending).fire dev toOccur = some t →
      P t

namespace Steady

variable {dev : Device H κ ω}
variable {P : Sim H κ → Prop}
variable {s t : Sim H κ}

theorem checkIfDue
    (hSteady : Steady dev P)
    {advanceClock fired : Bool}
    (hStart : P s)
    (hRun :
      s.checkIfDue dev advanceClock = some (fired, t)) :
    P t := by
  rcases (checkIfDue_cases hRun).2 with
    ⟨_, _, rfl⟩ | ⟨toOccur, pending, u, hPending, hClock, hEnd⟩
  · exact hStart
  have hu : P u ∧ u.interrupt.pending =
      toOccur :: pending := by
    rcases hClock with rfl | ⟨_, hLater, rfl⟩
    · exact ⟨hStart, hPending⟩
    · exact ⟨hSteady.advanceTo s toOccur.when hStart hLater,
        hPending⟩
  rcases hEnd with ⟨_, rfl⟩ | ⟨_, hDue, hFire⟩
  · exact hSteady.putBack u toOccur pending hu.1 hu.2
  · exact hSteady.fire u toOccur pending t hu.1 hu.2 hDue
      hFire

theorem drain
    (hSteady : Steady dev P)
    {fuel : Nat}
    (hStart : P s)
    (hRun : Sim.drain dev fuel s = some t) :
    P t := by
  induction fuel generalizing s with
  | zero => cases hRun
  | succ fuel ih =>
      rcases Option.bind_eq_some_iff.mp hRun with
        ⟨⟨fired, u⟩, hCheck, hRest⟩
      have hNext := hSteady.checkIfDue hStart hCheck
      dsimp only at hRest
      split at hRest
      · exact ih hNext hRest
      · cases hRest
        exact hNext

theorem oneTick
    (hSteady : Steady dev P)
    {yield : Option MachineStatus}
    (hStart : P s)
    (hRun : s.oneTick dev = some (yield, t)) :
    P t := by
  rcases Option.bind_eq_some_iff.mp hRun with
    ⟨u, hDrain, hRest⟩
  have hAdvance := hSteady.advance s hStart
  have hOff := hSteady.flags _ .off
    s.interrupt.advance.inHandler
    s.interrupt.advance.yieldOnReturn
    s.interrupt.advance.status hAdvance
  have hDrained := hSteady.drain hOff hDrain
  dsimp only at hRest
  split at hRest
  · cases hRest
    exact hSteady.flags u .on u.interrupt.inHandler false
      .system hDrained
  · cases hRest
    exact hSteady.flags u .on u.interrupt.inHandler
      u.interrupt.yieldOnReturn u.interrupt.status hDrained

theorem idle
    (hSteady : Steady dev P)
    {fired : Bool}
    (hStart : P s)
    (hRun : s.idle dev = some (fired, t)) :
    P t := by
  have hIdle := hSteady.flags s s.interrupt.level
    s.interrupt.inHandler s.interrupt.yieldOnReturn .idle
    hStart
  rcases Option.bind_eq_some_iff.mp hRun with
    ⟨⟨first, u⟩, hCheck, hRest⟩
  have hNext := hSteady.checkIfDue hIdle hCheck
  dsimp only at hRest
  split at hRest
  · rcases Option.bind_eq_some_iff.mp hRest with
      ⟨v, hDrain, hEq⟩
    cases hEq
    exact hSteady.flags v v.interrupt.level
      v.interrupt.inHandler false .system
      (hSteady.drain hNext hDrain)
  · cases hRest
    exact hNext

end Steady

end Sim

end Nachos

------------------------------------
-- Stable Properties
------------------------------------

namespace Nachos

variable {H κ ω : Type}

namespace Sim

/- A property that every single call of a handler keeps. -/
structure Stable
    (dev : Device H κ ω)
    (P : Sim H κ → Prop) : Prop where
  flags :
    ∀ s level inHandler yieldOnReturn status,
      P s →
      P (s.setFlags level inHandler yieldOnReturn status)
  advance :
    ∀ s, P s →
      P { s with interrupt := s.interrupt.advance }
  advanceTo :
    ∀ s when, P s →
      s.interrupt.stats.totalTicks ≤ when →
      P { s with interrupt := s.interrupt.advanceTo when }
  putBack :
    ∀ s toOccur pending, P s →
      s.interrupt.pending = toOccur :: pending →
      P (s.setPending
        (PriorityList.insert (·.when) toOccur pending))
  enter :
    ∀ s toOccur pending, P s →
      s.interrupt.pending = toOccur :: pending →
      toOccur.when ≤ s.interrupt.stats.totalTicks →
      P ((s.setPending pending).enter dev toOccur)
  perform :
    ∀ s call t, P s → s.perform dev call = some t → P t

namespace Stable

variable {dev : Device H κ ω}
variable {P : Sim H κ → Prop}

/- Only the operations of handlers change the rest. -/
theorem of_rest
    {Q : κ → Prop}
    (hLoad : ∀ k, Q k → Q (dev.delayedLoad k))
    (hExec : ∀ k op k', Q k → dev.exec op k = some k' → Q k') :
    Stable dev fun s => Q s.rest where
  flags := fun _ _ _ _ _ hInv => hInv
  advance := fun _ hInv => hInv
  advanceTo := fun _ _ hInv _ => hInv
  putBack := fun _ _ _ hInv _ => hInv
  enter := fun _ _ _ hInv _ _ => hLoad _ hInv
  perform := by
    intro s call t hInv hRun
    rcases perform_cases hRun with
      ⟨_, _, _, _, _, _, rfl⟩ | ⟨_, _, rfl⟩ |
        ⟨op, rest, _, hExecuted, rfl⟩
    · exact hInv
    · exact hInv
    · exact hExec _ op _ hInv hExecuted

/- A handler runs from its entry to its end. -/
theorem fire
    (hStable : Stable dev P)
    {s t : Sim H κ}
    {toOccur : PendingInterrupt H}
    (hEnter : P (s.enter dev toOccur))
    (hRun : s.fire dev toOccur = some t) :
    P t := by
  rcases Option.bind_eq_some_iff.mp hRun with
    ⟨u, hFold, hEq⟩
  cases hEq
  have hBody : P u :=
    Transition.foldlM_invariant hStable.perform hFold hEnter
  exact hStable.flags u u.interrupt.level false
    u.interrupt.yieldOnReturn s.interrupt.status hBody

theorem steady
    (hStable : Stable dev P) :
    Steady dev P where
  flags := hStable.flags
  advance := hStable.advance
  advanceTo := hStable.advanceTo
  putBack := hStable.putBack
  fire := fun s toOccur pending _ hStart hPending hDue hRun =>
    hStable.fire
      (hStable.enter s toOccur pending hStart hPending hDue)
      hRun

end Stable

end Sim

end Nachos
