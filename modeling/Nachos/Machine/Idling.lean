import Nachos.Machine.Draining

/-
  Idling moves the clock to the first interrupt.

  When no thread is ready, `Idle` advances the clock to the
  first pending interrupt, fires it and whatever else is due
  by then.  A timer that is pending alone is not fired: only
  a thread could make use of it.  Handlers are taken as they
  come, as long as each of them returns.

  Main declarations:
    * `Sim.Settled`
    * `Sim.drain_settles`
    * `Sim.idle_fires`
    * `Sim.idle_outcome`
-/

------------------------------------
-- The Loop While Idle
------------------------------------

namespace Nachos

variable {H κ ω : Type}

namespace Sim

/-
  What the loop does while the machine idles: the clock
  stands still, what it fires is due, what is due later stays
  pending, and in the end nothing is due but a lone timer.
-/
structure Settled
    (s t : Sim H κ) : Prop where
  stats : t.interrupt.stats = s.interrupt.stats
  fired :
    ∃ more : List (PendingInterrupt H),
      t.interrupt.fired =
        s.interrupt.fired ++
          more.map (fun p => (p, s.interrupt.stats.totalTicks)) ∧
      ∀ p ∈ more, p.when ≤ s.interrupt.stats.totalTicks
  kept :
    ∀ p ∈ s.interrupt.pending,
      s.interrupt.stats.totalTicks < p.when →
        p ∈ t.interrupt.pending
  settled :
    t.LoneTimer ∨
      ∀ p ∈ t.interrupt.pending,
        t.interrupt.stats.totalTicks < p.when

variable {dev : Device H κ ω}

theorem drain_settles
    (hReturn : dev.Returning)
    {fuel : Nat}
    {s : Sim H κ}
    (hLevel : s.interrupt.level = .off)
    (hSorted :
      PriorityList.Sorted (·.when) s.interrupt.pending)
    (hFuel : s.due.length < fuel) :
    ∃ t, drain dev fuel s = some t ∧ Settled s t := by
  rcases drain_looped hReturn hLevel hSorted hFuel with
    ⟨t, more, hRun, hLooped⟩
  refine ⟨t, hRun, hLooped.stats,
    ⟨more, hLooped.fired, ?_⟩, hLooped.kept, ?_⟩
  · intro p hp
    have hDue := (List.mem_filter.mp (hLooped.due.subset hp)).2
    simpa using hDue
  · rcases hLooped.ended with ⟨_, hLater⟩ | ⟨_, hLone⟩
    · exact Or.inr hLater
    · exact Or.inl hLone

end Sim

end Nachos

------------------------------------
-- Idling
------------------------------------

namespace Nachos

variable {H κ ω : Type}

namespace Sim

variable {s : Sim H κ}

/- The machine idles with its clock at the interrupt. -/
def idledTo
    (s : Sim H κ)
    (when : Int) :
    Sim H κ :=
  { s with
    interrupt :=
      if when > s.interrupt.stats.totalTicks then
        { s.interrupt with status := .idle }.advanceTo when
      else
        { s.interrupt with status := .idle } }

/- Idling is over. -/
def awake
    (s : Sim H κ) :
    Sim H κ :=
  { s with
    interrupt :=
      { s.interrupt with
        yieldOnReturn := false
        status := .system } }

theorem idledTo_clock
    (s : Sim H κ)
    (when : Int) :
    (s.idledTo when).interrupt.stats.totalTicks =
        max s.interrupt.stats.totalTicks when ∧
      (s.idledTo when).interrupt.stats.idleTicks =
        s.interrupt.stats.idleTicks +
          ((s.idledTo when).interrupt.stats.totalTicks -
            s.interrupt.stats.totalTicks) := by
  by_cases hLate : when > s.interrupt.stats.totalTicks
  · simp only [idledTo, if_pos hLate, Interrupt.advanceTo,
      and_true]
    omega
  · simp only [idledTo, if_neg hLate]
    omega

theorem idledTo_rest
    (s : Sim H κ)
    (when : Int) :
    (s.idledTo when).interrupt.level = s.interrupt.level ∧
      (s.idledTo when).interrupt.status = .idle ∧
      (s.idledTo when).interrupt.pending =
        s.interrupt.pending ∧
      (s.idledTo when).interrupt.fired =
        s.interrupt.fired ∧
      (s.idledTo when).rest = s.rest := by
  by_cases hLate : when > s.interrupt.stats.totalTicks
  · simp [idledTo, if_pos hLate, Interrupt.advanceTo]
  · simp [idledTo, if_neg hLate]

variable {dev : Device H κ ω}

/- A tick returns when its handlers do. -/
theorem oneTick_returns
    (hReturn : dev.Returning)
    (hStatus : s.interrupt.status ≠ .idle)
    (hSorted :
      PriorityList.Sorted (·.when) s.interrupt.pending) :
    ∃ yield t, s.oneTick dev = some (yield, t) := by
  rcases s.interrupt.advance_eq with ⟨stats, _, hAdvance⟩
  have hBusy : s.ticked.interrupt.status ≠ .idle := by
    rw [ticked, hAdvance]
    exact hStatus
  have hTicked : PriorityList.Sorted (·.when)
      s.ticked.interrupt.pending := by
    rw [ticked, hAdvance]
    exact hSorted
  have hRounds : s.ticked.due.length < s.ticked.rounds :=
    Nat.lt_succ_of_le (List.length_filter_le _ _)
  rcases drain_returns hReturn rfl hBusy hTicked hRounds with
    ⟨u, hRun, _⟩
  rw [oneTick_eq, hRun, Option.bind_some]
  split
  · exact ⟨_, _, rfl⟩
  · exact ⟨_, _, rfl⟩

/-
  Unless only a timer is pending, idling fires the first
  interrupt and goes on with what is due by then.
-/
theorem idle_fires
    (hReturn : dev.Returning)
    {first : PendingInterrupt H}
    {pending : List (PendingInterrupt H)}
    (hLevel : s.interrupt.level = .off)
    (hSorted :
      PriorityList.Sorted (·.when) s.interrupt.pending)
    (hPending : s.interrupt.pending = first :: pending)
    (hNot : ¬ s.LoneTimer) :
    ∃ u v,
      ((s.idledTo first.when).setPending pending).fire dev
          first = some u ∧
      drain dev u.rounds u = some v ∧
      s.idle dev = some (true, v.awake) ∧
      Fired ((s.idledTo first.when).setPending pending)
        first u ∧
      Settled u v := by
  rcases fire_returns hReturn
    ((s.idledTo first.when).setPending pending) first with
    ⟨u, hFire, hFired⟩
  have hCheck :
      ({ s with
          interrupt :=
            { s.interrupt with status := .idle } } :
        Sim H κ).checkIfDue dev true = some (true, u) := by
    have hTimer :
        ¬ (first.type = .timer ∧ pending = []) := by
      rintro ⟨hType, rfl⟩
      exact hNot ⟨first, hPending, hType⟩
    rw [checkIfDue, if_pos hLevel]
    simp only [hPending]
    by_cases hLate :
        first.when > s.interrupt.stats.totalTicks
    · rw [idledTo, if_pos hLate] at hFire
      simp only [hLate, Bool.true_eq_false, and_false,
        if_false, if_true, hTimer]
      exact congrArg
        (fun o => Option.bind o fun u => some (true, u)) hFire
    · rw [idledTo, if_neg hLate] at hFire
      simp only [hLate, false_and, if_false, hTimer,
        and_false]
      exact congrArg
        (fun o => Option.bind o fun u => some (true, u)) hFire
  have hTail := hSorted
  rw [hPending] at hTail
  have hRest := idledTo_rest s first.when
  have hRounds : u.due.length < u.rounds :=
    Nat.lt_succ_of_le (List.length_filter_le _ _)
  rcases drain_settles hReturn
      (hFired.level.trans (hRest.1.trans hLevel))
      (hFired.sorted (List.pairwise_cons.mp hTail).2)
      hRounds with
    ⟨v, hDrain, hSettled⟩
  refine ⟨u, v, hFire, hDrain, ?_, hFired, hSettled⟩
  simp only [idle, hCheck, hDrain, Option.bind_eq_bind,
    Option.bind_some, if_true]
  rfl

/- With nothing or only a timer to wait for, it halts. -/
theorem idle_halts
    (dev : Device H κ ω)
    (hLevel : s.interrupt.level = .off)
    (hNothing :
      s.interrupt.pending = [] ∨ s.LoneTimer) :
    ∃ t, s.idle dev = some (false, t) ∧
      t.interrupt.fired = s.interrupt.fired ∧
      t.interrupt.pending = s.interrupt.pending ∧
      t.rest = s.rest := by
  rcases hNothing with hPending | ⟨p, hPending, hType⟩
  · refine ⟨{ s with
      interrupt :=
        { s.interrupt with status := .idle } }, ?_, rfl, rfl,
      rfl⟩
    rw [idle, checkIfDue, if_pos hLevel]
    simp only [hPending]
    rfl
  · have hRest := idledTo_rest s p.when
    refine ⟨(s.idledTo p.when).setPending [p], ?_, hRest.2.2.2.1,
      hPending.symm, hRest.2.2.2.2⟩
    rw [idle, checkIfDue, if_pos hLevel]
    by_cases hLate :
        p.when > s.interrupt.stats.totalTicks
    · rw [idledTo, if_pos hLate]
      simp only [hPending, hLate, Bool.true_eq_false,
        and_false, if_false, if_true, Interrupt.advanceTo,
        hType, and_self]
      rfl
    · rw [idledTo, if_neg hLate]
      simp only [hPending, hLate, false_and, if_false,
        hType, and_self, if_true]
      rfl

/-
  The machine halts exactly when nothing is pending but
  perhaps a timer.  Otherwise the clock moves to the first
  pending interrupt, all of that time is counted as idle,
  that interrupt is fired first and then others that are due,
  none that is due later is lost, and in the end nothing is
  due but a lone timer.
-/
theorem idle_outcome
    (hReturn : dev.Returning)
    {s : Sim H κ}
    (hLevel : s.interrupt.level = .off)
    (hSorted :
      PriorityList.Sorted (·.when) s.interrupt.pending) :
    ∃ fired t, s.idle dev = some (fired, t) ∧
      (fired = false ↔
        s.interrupt.pending = [] ∨ s.LoneTimer) ∧
      (fired = true →
        ∃ first pending more,
          s.interrupt.pending = first :: pending ∧
          t.interrupt.stats.totalTicks =
            max s.interrupt.stats.totalTicks first.when ∧
          t.interrupt.stats.idleTicks =
            s.interrupt.stats.idleTicks +
              (t.interrupt.stats.totalTicks -
                s.interrupt.stats.totalTicks) ∧
          t.interrupt.fired =
            s.interrupt.fired ++
              (first :: more).map (fun p =>
                (p, t.interrupt.stats.totalTicks)) ∧
          (∀ p ∈ first :: more,
            p.when ≤ t.interrupt.stats.totalTicks) ∧
          (∀ p ∈ pending,
            t.interrupt.stats.totalTicks < p.when →
              p ∈ t.interrupt.pending) ∧
          (t.LoneTimer ∨
            ∀ p ∈ t.interrupt.pending,
              t.interrupt.stats.totalTicks < p.when)) := by
  by_cases hNothing :
      s.interrupt.pending = [] ∨ s.LoneTimer
  · rcases idle_halts dev hLevel hNothing with
      ⟨t, hIdle, _⟩
    refine ⟨false, t, hIdle, ?_, ?_⟩
    · simp only [hNothing]
    · intro hFired
      cases hFired
  · rw [not_or] at hNothing
    rcases hNothing with ⟨hSome, hNot⟩
    rcases List.exists_cons_of_ne_nil hSome with
      ⟨first, pending, hPending⟩
    rcases idle_fires hReturn hLevel hSorted hPending hNot
      with ⟨u, v, _, _, hIdle, hFired, hSettled⟩
    refine ⟨true, v.awake, hIdle, ?_, ?_⟩
    · simp [hSome, hNot]
    intro _
    have hClock := idledTo_clock s first.when
    have hRest := idledTo_rest s first.when
    have hStats :
        v.awake.interrupt.stats =
          (s.idledTo first.when).interrupt.stats :=
      hSettled.stats.trans hFired.stats
    rcases hSettled.fired with ⟨more, hMore, hDue⟩
    rw [hFired.stats] at hMore hDue
    refine ⟨first, pending, more, hPending, ?_⟩
    rw [hStats]
    refine ⟨hClock.1, hClock.2, ?_, ?_, ?_, ?_⟩
    · have hLog : v.awake.interrupt.fired =
          v.interrupt.fired := rfl
      rw [hLog, hMore, hFired.fired, List.append_assoc]
      exact congrArg (· ++ _) hRest.2.2.2.1
    · refine List.forall_mem_cons.mpr ⟨?_, hDue⟩
      rw [hClock.1]
      exact le_max_right _ _
    · intro p hp hLater
      refine hSettled.kept p (hFired.pending p hp) ?_
      rw [hFired.stats]
      exact hLater
    · have hEnd := hSettled.settled
      rw [hSettled.stats, hFired.stats] at hEnd
      exact hEnd

/- A disk and a console while a timer is pending, too. -/
def waiting : Sim Bool Unit where
  interrupt :=
    { Interrupt.create with
      pending :=
        [⟨false, 50, .disk, 0⟩, ⟨false, 50, .consoleRead, 1⟩,
          ⟨true, 60, .timer, 2⟩] }
  rest := ()

theorem idle_outcome_disk :
    ∃ t, waiting.idle rearming = some (true, t) ∧
      t.interrupt.stats.totalTicks = 50 ∧
      (t.interrupt.fired.map (fun f => f.1.serial)).head? =
        some 0 := by
  have hSorted : PriorityList.Sorted (·.when)
      waiting.interrupt.pending := by
    simp [PriorityList.Sorted, waiting]
  rcases idle_outcome rearming_returning rfl hSorted with
    ⟨fired, t, hIdle, hHalts, hFires⟩
  have hFired : fired = true := by
    rw [← Bool.not_eq_false, hHalts]
    simp [LoneTimer, waiting]
  subst hFired
  rcases hFires rfl with
    ⟨first, pending, more, hPending, hClock, _, hLog, _⟩
  have hFirst := (List.cons.inj hPending).1
  refine ⟨t, hIdle, ?_, ?_⟩
  · rw [hClock, ← hFirst]
    rfl
  · rw [hLog, ← hFirst]
    rfl

end Sim

end Nachos
