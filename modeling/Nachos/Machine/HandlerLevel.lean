import Nachos.Lib.Transition
import Nachos.Machine.Stable

/-
  The interrupt level while handlers run.

  Handlers are called with interrupts off and leave the level
  alone; so a tick ends with interrupts on, and idling ends
  with interrupts off.

  Main declarations:
    * `Sim.AgreeOff`
    * `Sim.idle_flags`
    * `Sim.AgreeOff.oneTick_eq`
    * `Sim.AgreeOff.idle_eq`
-/

------------------------------------
-- Levels While Handlers Run
------------------------------------

namespace Nachos

namespace Sim

variable {H κ ω : Type}
variable {dev : Device H κ ω}
variable {s t : Sim H κ}

theorem perform_flags
    {call : HandlerCall H ω}
    (hRun : s.perform dev call = some t) :
    t.interrupt.level = s.interrupt.level ∧
      t.interrupt.inHandler = s.interrupt.inHandler := by
  rcases perform_cases hRun with
    ⟨_, _, _, i, _, hSchedule, rfl⟩ | ⟨_, _, rfl⟩ |
      ⟨_, _, _, _, rfl⟩
  · rcases Interrupt.schedule_cases hSchedule with
      ⟨_, _, _, _, _, _, rfl⟩
    exact ⟨rfl, rfl⟩
  · exact ⟨rfl, rfl⟩
  · exact ⟨rfl, rfl⟩

/- A handler keeps the level from its entry to its end. -/
theorem fire_flags
    {toOccur : PendingInterrupt H}
    (hRun : s.fire dev toOccur = some t) :
    t.interrupt.level = s.interrupt.level ∧
      t.interrupt.inHandler = false := by
  rcases Option.bind_eq_some_iff.mp hRun with
    ⟨u, hFold, hEq⟩
  cases hEq
  have hLevel : u.interrupt.level = s.interrupt.level := by
    refine Transition.foldlM_invariant
      (P := fun v : Sim H κ =>
        v.interrupt.level = s.interrupt.level) ?_ hFold rfl
    intro v call w hv hCall
    exact (perform_flags hCall).1.trans hv
  exact ⟨hLevel, rfl⟩

theorem checkIfDue_flags
    {advanceClock fired : Bool}
    (hRun :
      s.checkIfDue dev advanceClock = some (fired, t)) :
    s.interrupt.level = .off ∧ t.interrupt.level = .off ∧
      (s.interrupt.inHandler = false →
        t.interrupt.inHandler = false) := by
  rcases checkIfDue_cases hRun with ⟨hOff, hCases⟩
  refine ⟨hOff, ?_⟩
  rcases hCases with
    ⟨_, _, rfl⟩ | ⟨toOccur, pending, u, _, hClock, hEnd⟩
  · exact ⟨hOff, id⟩
  have hu : u.interrupt.level = .off ∧
      u.interrupt.inHandler = s.interrupt.inHandler := by
    rcases hClock with rfl | ⟨_, _, rfl⟩
    · exact ⟨hOff, rfl⟩
    · exact ⟨hOff, rfl⟩
  rcases hEnd with ⟨_, rfl⟩ | ⟨_, _, hFire⟩
  · exact ⟨hu.1, hu.2.trans⟩
  · have hFlags := fire_flags hFire
    exact ⟨hFlags.1.trans hu.1, fun _ => hFlags.2⟩

theorem drain_flags
    {fuel : Nat}
    (hRun : drain dev fuel s = some t) :
    t.interrupt.level = .off ∧
      (s.interrupt.inHandler = false →
        t.interrupt.inHandler = false) := by
  induction fuel generalizing s with
  | zero => cases hRun
  | succ fuel ih =>
      rcases Option.bind_eq_some_iff.mp hRun with
        ⟨⟨fired, u⟩, hCheck, hRest⟩
      rcases checkIfDue_flags hCheck with
        ⟨_, hOff, hHandler⟩
      dsimp only at hRest
      split at hRest
      · rcases ih hRest with ⟨hOff', hHandler'⟩
        exact ⟨hOff', fun h => hHandler' (hHandler h)⟩
      · cases hRest
        exact ⟨hOff, hHandler⟩

/- A tick ends with interrupts on. -/
theorem oneTick_flags
    {yield : Option MachineStatus}
    (hRun : s.oneTick dev = some (yield, t)) :
    t.interrupt.level = .on ∧
      (s.interrupt.inHandler = false →
        t.interrupt.inHandler = false) := by
  rcases Option.bind_eq_some_iff.mp hRun with
    ⟨u, hDrain, hRest⟩
  have hHandler := (drain_flags hDrain).2
  have hStart : s.interrupt.advance.inHandler =
      s.interrupt.inHandler := by
    rcases s.interrupt.advance_eq with ⟨stats, _, hEq⟩
    rw [hEq]
  dsimp only [Interrupt.changeLevel] at hHandler
  rw [hStart] at hHandler
  dsimp only at hRest
  split at hRest
  · cases hRest
    exact ⟨rfl, hHandler⟩
  · cases hRest
    exact ⟨rfl, hHandler⟩

/- Idling needs interrupts off and keeps them off. -/
theorem idle_flags
    {fired : Bool}
    (hRun : s.idle dev = some (fired, t)) :
    t.interrupt.level = .off ∧
      (s.interrupt.inHandler = false →
        t.interrupt.inHandler = false) := by
  rcases Option.bind_eq_some_iff.mp hRun with
    ⟨⟨first, u⟩, hCheck, hRest⟩
  rcases checkIfDue_flags hCheck with ⟨_, hOff, hHandler⟩
  dsimp only at hRest
  split at hRest
  · rcases Option.bind_eq_some_iff.mp hRest with
      ⟨v, hDrain, hEq⟩
    cases hEq
    rcases drain_flags hDrain with ⟨hOff', hHandler'⟩
    exact ⟨hOff', fun h => hHandler' (hHandler h)⟩
  · cases hRest
    exact ⟨hOff, hHandler⟩

end Sim

end Nachos

------------------------------------
-- Handlers and Levels
------------------------------------

namespace Nachos

namespace Sim

variable {H κ ω : Type}
variable {dev dev' : Device H κ ω}

/-
  Two devices whose handlers do the same whenever interrupts
  are off and the interrupt controller is in a handler.
-/
structure AgreeOff
    (dev dev' : Device H κ ω) : Prop where
  delayedLoad : dev'.delayedLoad = dev.delayedLoad
  exec : dev'.exec = dev.exec
  body :
    ∀ handler (i : Interrupt H) k, i.level = .off →
      i.inHandler = true →
      dev'.body handler i k = dev.body handler i k

namespace AgreeOff

variable (hAgree : AgreeOff dev dev')

include hAgree

theorem perform_eq :
    perform dev' = perform dev := by
  funext s call
  cases call with
  | schedule handler fromNow type => rfl
  | yieldOnReturn => rfl
  | device op => rw [perform, perform, hAgree.exec]

theorem fire_eq
    (s : Sim H κ)
    (hOff : s.interrupt.level = .off)
    (toOccur : PendingInterrupt H) :
    s.fire dev' toOccur = s.fire dev toOccur := by
  have hEnter :
      s.enter dev' toOccur = s.enter dev toOccur := by
    rw [enter, enter, hAgree.delayedLoad]
  have hBody := hAgree.body toOccur.handler
    (s.enter dev toOccur).interrupt (s.enter dev toOccur).rest
    hOff rfl
  simp only [fire, hEnter, hAgree.perform_eq, hBody]

theorem checkIfDue_eq
    (s : Sim H κ)
    (advanceClock : Bool) :
    s.checkIfDue dev' advanceClock =
      s.checkIfDue dev advanceClock := by
  unfold checkIfDue
  split
  · rename_i hOff
    split
    · rfl
    · dsimp only
      split
      · rfl
      · split
        · split
          · rfl
          · rw [hAgree.fire_eq]
            exact hOff
        · split
          · rfl
          · rw [hAgree.fire_eq]
            exact hOff
  · rfl

theorem drain_eq
    (fuel : Nat)
    (s : Sim H κ) :
    drain dev' fuel s = drain dev fuel s := by
  induction fuel generalizing s with
  | zero => rfl
  | succ fuel ih =>
      rw [drain, drain, hAgree.checkIfDue_eq]
      simp only [ih]

theorem oneTick_eq
    (s : Sim H κ) :
    s.oneTick dev' = s.oneTick dev := by
  unfold oneTick
  simp only [hAgree.drain_eq]

theorem idle_eq
    (s : Sim H κ) :
    s.idle dev' = s.idle dev := by
  unfold idle
  simp only [hAgree.checkIfDue_eq, hAgree.drain_eq]

end AgreeOff

end Sim

end Nachos
