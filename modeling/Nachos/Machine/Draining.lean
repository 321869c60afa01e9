import Nachos.Machine.Delivery

/-
  A tick fires the interrupts that are due and no others.

  Handlers are taken as they come, as long as each of them
  returns: what it schedules is to occur later, and what it
  asks of the devices can be done.

  Main declarations:
    * `Device.Returning`
    * `Sim.Looped`
    * `Sim.fire_returns`
    * `Sim.drain_looped`
    * `Sim.tick_drains`
-/

------------------------------------
-- Handlers That Return
------------------------------------

namespace Nachos

variable {H κ ω : Type}

/- A call that does not fail within a handler. -/
def HandlerCall.Returns
    (dev : Device H κ ω) :
    HandlerCall H ω → Prop
| .schedule _ fromNow _ => 0 < fromNow
| .yieldOnReturn => True
| .device op => ∀ k, ∃ k', dev.exec op k = some k'

/- Handlers whose calls do not fail. -/
def Device.Returning
    (dev : Device H κ ω) : Prop :=
  ∀ handler i k, ∀ call ∈ dev.body handler i k,
    call.Returns dev

namespace Sim

/-
  What the calls of a handler leave as it is.  They can make
  more interrupts pending, but none that is due.
-/
structure Kept
    (s t : Sim H κ) : Prop where
  stats : t.interrupt.stats = s.interrupt.stats
  level : t.interrupt.level = s.interrupt.level
  inHandler :
    t.interrupt.inHandler = s.interrupt.inHandler
  fired : t.interrupt.fired = s.interrupt.fired
  pending :
    ∀ p ∈ s.interrupt.pending, p ∈ t.interrupt.pending
  due : t.due = s.due
  sorted :
    PriorityList.Sorted (·.when) s.interrupt.pending →
      PriorityList.Sorted (·.when) t.interrupt.pending

theorem Kept.refl
    (s : Sim H κ) :
    Kept s s :=
  ⟨rfl, rfl, rfl, rfl, fun _ hp => hp, rfl, id⟩

theorem Kept.trans
    {s t u : Sim H κ}
    (hFirst : Kept s t)
    (hNext : Kept t u) :
    Kept s u where
  stats := hNext.stats.trans hFirst.stats
  level := hNext.level.trans hFirst.level
  inHandler := hNext.inHandler.trans hFirst.inHandler
  fired := hNext.fired.trans hFirst.fired
  pending := fun p hp => hNext.pending p (hFirst.pending p hp)
  due := hNext.due.trans hFirst.due
  sorted := fun hSorted =>
    hNext.sorted (hFirst.sorted hSorted)

variable {dev : Device H κ ω}

theorem perform_kept
    {s t : Sim H κ}
    {call : HandlerCall H ω}
    (hRun : s.perform dev call = some t) :
    Kept s t := by
  have hDue := perform_due hRun
  rcases perform_cases hRun with
    ⟨_, _, _, i, _, hSchedule, rfl⟩ | ⟨_, _, rfl⟩ |
      ⟨_, _, _, _, rfl⟩
  · rcases Interrupt.schedule_cases hSchedule with
      ⟨_, toOccur, _, _, _, _, rfl⟩
    refine ⟨rfl, rfl, rfl, rfl, ?_, hDue, ?_⟩
    · intro p hp
      exact PriorityList.mem_insert.mpr (Or.inr hp)
    · exact PriorityList.sorted_insert _
  · exact ⟨rfl, rfl, rfl, rfl, fun _ hp => hp, hDue, id⟩
  · exact ⟨rfl, rfl, rfl, rfl, fun _ hp => hp, hDue, id⟩

theorem perform_returns
    {s : Sim H κ}
    {call : HandlerCall H ω}
    (hCall : call.Returns dev)
    (hInside : s.interrupt.inHandler = true) :
    ∃ t, s.perform dev call = some t := by
  cases call with
  | schedule handler fromNow type =>
      have hLater : fromNow > 0 := hCall
      rw [perform, Interrupt.schedule, if_pos hLater]
      exact ⟨_, rfl⟩
  | yieldOnReturn =>
      rw [perform, Interrupt.setYieldOnReturn,
        if_pos hInside]
      exact ⟨_, rfl⟩
  | device op =>
      rcases hCall s.rest with ⟨rest, hExec⟩
      rw [perform, hExec]
      exact ⟨_, rfl⟩

/- All calls of a handler, one after the other. -/
theorem performs_return
    {s : Sim H κ}
    {calls : List (HandlerCall H ω)}
    (hCalls : ∀ call ∈ calls, call.Returns dev)
    (hInside : s.interrupt.inHandler = true) :
    ∃ t, calls.foldlM (perform dev) s = some t ∧
      Kept s t := by
  induction calls generalizing s with
  | nil => exact ⟨s, rfl, Kept.refl s⟩
  | cons call calls ih =>
      rcases List.forall_mem_cons.mp hCalls with
        ⟨hCall, hCalls⟩
      rcases perform_returns hCall hInside with ⟨t, hRun⟩
      have hKept := perform_kept hRun
      rcases ih hCalls (hKept.inHandler.trans hInside) with
        ⟨u, hRest, hNext⟩
      refine ⟨u, ?_, hKept.trans hNext⟩
      rw [List.foldlM_cons, hRun]
      exact hRest

end Sim

end Nachos

------------------------------------
-- The Loop of a Tick
------------------------------------

namespace Nachos

variable {H κ ω : Type}

namespace Sim

variable {pending : List (PendingInterrupt H)}
variable {toOccur : PendingInterrupt H}
variable {s : Sim H κ}

/- What firing one interrupt does to the controller. -/
structure Fired
    (s : Sim H κ)
    (toOccur : PendingInterrupt H)
    (t : Sim H κ) : Prop where
  stats : t.interrupt.stats = s.interrupt.stats
  level : t.interrupt.level = s.interrupt.level
  status : t.interrupt.status = s.interrupt.status
  fired :
    t.interrupt.fired =
      s.interrupt.fired ++
        [(toOccur, s.interrupt.stats.totalTicks)]
  pending :
    ∀ p ∈ s.interrupt.pending, p ∈ t.interrupt.pending
  due : t.due = s.due
  sorted :
    PriorityList.Sorted (·.when) s.interrupt.pending →
      PriorityList.Sorted (·.when) t.interrupt.pending

/-
  What the loop of a tick does: it fires what was due, in
  order, while the clock stands still, and leaves pending
  what is due later.
-/
structure Drained
    (s t : Sim H κ) : Prop where
  stats : t.interrupt.stats = s.interrupt.stats
  fired :
    t.interrupt.fired =
      s.interrupt.fired ++
        s.due.map fun p => (p, s.interrupt.stats.totalTicks)
  kept :
    ∀ p ∈ s.interrupt.pending,
      s.interrupt.stats.totalTicks < p.when →
        p ∈ t.interrupt.pending
  later :
    ∀ p ∈ t.interrupt.pending,
      t.interrupt.stats.totalTicks < p.when

/- Nothing is pending but a timer. -/
def LoneTimer
    (s : Sim H κ) : Prop :=
  ∃ p, s.interrupt.pending = [p] ∧ p.type = .timer

/-
  What the loop does with more rounds than interrupts are
  due: it fires all of them, unless the machine is idle and a
  timer is left alone.
-/
structure Looped
    (s t : Sim H κ)
    (more : List (PendingInterrupt H)) : Prop where
  stats : t.interrupt.stats = s.interrupt.stats
  fired :
    t.interrupt.fired =
      s.interrupt.fired ++
        more.map fun p => (p, s.interrupt.stats.totalTicks)
  due : more <+: s.due
  kept :
    ∀ p ∈ s.interrupt.pending,
      s.interrupt.stats.totalTicks < p.when →
        p ∈ t.interrupt.pending
  ended :
    (more = s.due ∧
      ∀ p ∈ t.interrupt.pending,
        t.interrupt.stats.totalTicks < p.when) ∨
    (s.interrupt.status = .idle ∧ t.LoneTimer)

/- The state in which a tick looks for interrupts. -/
def ticked
    (s : Sim H κ) :
    Sim H κ :=
  { s with
    interrupt := s.interrupt.advance.changeLevel .off }

variable {dev : Device H κ ω}

theorem fire_returns
    (hReturn : dev.Returning)
    (s : Sim H κ)
    (toOccur : PendingInterrupt H) :
    ∃ t, s.fire dev toOccur = some t ∧
      Fired s toOccur t := by
  have hCalls : ∀ call ∈ dev.body toOccur.handler
      (s.enter dev toOccur).interrupt
      (s.enter dev toOccur).rest, call.Returns dev :=
    hReturn _ _ _
  have hInside :
      (s.enter dev toOccur).interrupt.inHandler = true :=
    rfl
  rcases performs_return hCalls hInside with
    ⟨u, hRun, hKept⟩
  refine ⟨u.leave s.interrupt.status, ?_, ?_⟩
  · rw [fire]
    simp only [hRun, Option.bind_eq_bind, Option.bind_some]
  · exact ⟨hKept.stats, hKept.level, rfl, hKept.fired,
      hKept.pending, hKept.due, hKept.sorted⟩

/- When the first interrupt is late, none is due. -/
theorem checkIfDue_late
    (hLevel : s.interrupt.level = .off)
    (hPending : s.interrupt.pending = toOccur :: pending)
    (hLate :
      s.interrupt.stats.totalTicks < toOccur.when) :
    s.checkIfDue dev false =
      some (false, s.setPending
        (PriorityList.insert (·.when) toOccur pending)) := by
  rw [checkIfDue, if_pos hLevel, hPending]
  exact if_pos ⟨hLate, rfl⟩

/- A first interrupt that is due is fired. -/
theorem checkIfDue_due
    {t : Sim H κ}
    (hLevel : s.interrupt.level = .off)
    (hPending : s.interrupt.pending = toOccur :: pending)
    (hDue : toOccur.when ≤ s.interrupt.stats.totalTicks)
    (hNot : ¬ (s.interrupt.status = .idle ∧ s.LoneTimer))
    (hFire :
      (s.setPending pending).fire dev toOccur = some t) :
    s.checkIfDue dev false = some (true, t) := by
  have hLate :
      ¬ toOccur.when > s.interrupt.stats.totalTicks :=
    not_lt.mpr hDue
  have hTimer :
      ¬ (s.interrupt.status = .idle ∧
        toOccur.type = .timer ∧ pending = []) := by
    rintro ⟨hStatus, hType, rfl⟩
    exact hNot ⟨hStatus, toOccur, hPending, hType⟩
  rw [checkIfDue, if_pos hLevel, hPending]
  simp only [hLate, false_and, if_false, hTimer, hFire,
    Option.bind_eq_bind, Option.bind_some]

/- A lone timer is put back, even when it is due. -/
theorem checkIfDue_lone
    (hLevel : s.interrupt.level = .off)
    (hStatus : s.interrupt.status = .idle)
    (hLone : s.LoneTimer) :
    s.checkIfDue dev false = some (false, s) := by
  rcases hLone with ⟨p, hPending, hType⟩
  have hBack :
      s.setPending (PriorityList.insert (·.when) p []) = s := by
    have hSame :
        PriorityList.insert (·.when) p [] =
          s.interrupt.pending :=
      hPending.symm
    rw [hSame]
    rfl
  rw [checkIfDue, if_pos hLevel, hPending]
  by_cases hLate :
      p.when > s.interrupt.stats.totalTicks
  · simp [hLate, hBack]
  · simp [hLate, hStatus, hType, hBack]

/- In a sorted list nothing is due before the first one. -/
theorem later_of_sorted
    (hSorted :
      PriorityList.Sorted (·.when) s.interrupt.pending)
    (hPending : s.interrupt.pending = toOccur :: pending)
    (hLate :
      s.interrupt.stats.totalTicks < toOccur.when) :
    ∀ p ∈ s.interrupt.pending,
      s.interrupt.stats.totalTicks < p.when := by
  rw [hPending] at hSorted ⊢
  refine List.forall_mem_cons.mpr ⟨hLate, ?_⟩
  intro p hp
  exact hLate.trans_le
    ((List.pairwise_cons.mp hSorted).1 p hp)

theorem due_eq_nil
    (hLater :
      ∀ p ∈ s.interrupt.pending,
        s.interrupt.stats.totalTicks < p.when) :
    s.due = [] := by
  apply List.filter_eq_nil_iff.mpr
  intro p hp
  simpa using hLater p hp

theorem due_eq_cons
    (hPending : s.interrupt.pending = toOccur :: pending)
    (hDue : toOccur.when ≤ s.interrupt.stats.totalTicks) :
    s.due = toOccur :: (s.setPending pending).due := by
  rw [due, hPending]
  exact List.filter_cons_of_pos (by simpa using hDue)

/- A loop that finds nothing due has nothing to do. -/
theorem Looped.of_later
    {t : Sim H κ}
    (hLater :
      ∀ p ∈ s.interrupt.pending,
        s.interrupt.stats.totalTicks < p.when)
    (hStats : t.interrupt.stats = s.interrupt.stats)
    (hFired : t.interrupt.fired = s.interrupt.fired)
    (hPending :
      ∀ p, p ∈ t.interrupt.pending ↔
        p ∈ s.interrupt.pending) :
    Looped s t [] := by
  refine ⟨hStats, ?_, List.nil_prefix, ?_,
    Or.inl ⟨(due_eq_nil hLater).symm, ?_⟩⟩
  · rw [hFired, List.map_nil, List.append_nil]
  · intro p hp _
    exact (hPending p).mpr hp
  · intro p hp
    rw [hStats]
    exact hLater p ((hPending p).mp hp)

/- One interrupt is fired, and the loop does the others. -/
theorem Looped.of_fired
    {t u : Sim H κ}
    {more : List (PendingInterrupt H)}
    (hPending : s.interrupt.pending = toOccur :: pending)
    (hDue : toOccur.when ≤ s.interrupt.stats.totalTicks)
    (hFired : Fired (s.setPending pending) toOccur t)
    (hRest : Looped t u more) :
    Looped s u (toOccur :: more) := by
  have hFirst : s.due = toOccur :: t.due := by
    rw [hFired.due, due_eq_cons hPending hDue]
  have hStats : t.interrupt.stats = s.interrupt.stats :=
    hFired.stats
  have hStatus : t.interrupt.status = s.interrupt.status :=
    hFired.status
  refine ⟨hRest.stats.trans hStats, ?_, ?_, ?_, ?_⟩
  · rw [hRest.fired, hFired.fired, hStats, List.map_cons,
      List.append_assoc]
    rfl
  · rw [hFirst]
    exact List.prefix_cons_inj toOccur |>.mpr hRest.due
  · intro p hp hLater
    rw [hPending] at hp
    rcases List.mem_cons.mp hp with rfl | hp
    · omega
    · apply hRest.kept p (hFired.pending p hp)
      rw [hStats]
      exact hLater
  · rw [hFirst, ← hStatus]
    exact hRest.ended.imp_left fun ⟨hAll, hLater⟩ =>
      ⟨congrArg _ hAll, hLater⟩

/- The induction is on the rounds left for what is due. -/
theorem drain_looped
    (hReturn : dev.Returning)
    {fuel : Nat}
    (hLevel : s.interrupt.level = .off)
    (hSorted :
      PriorityList.Sorted (·.when) s.interrupt.pending)
    (hFuel : s.due.length < fuel) :
    ∃ t more, drain dev fuel s = some t ∧
      Looped s t more := by
  induction fuel generalizing s with
  | zero => omega
  | succ fuel ih =>
      by_cases hLone :
          s.interrupt.status = .idle ∧ s.LoneTimer
      · refine ⟨s, [], ?_, rfl, (List.append_nil _).symm,
          List.nil_prefix, fun _ hp _ => hp, Or.inr hLone⟩
        rw [drain, checkIfDue_lone hLevel hLone.1 hLone.2]
        rfl
      cases hPending : s.interrupt.pending with
      | nil =>
          refine ⟨s, [], ?_, .of_later ?_ rfl rfl
            fun _ => Iff.rfl⟩
          · rw [drain, checkIfDue, if_pos hLevel, hPending]
            rfl
          · rw [hPending]
            exact List.forall_mem_nil _
      | cons toOccur pending =>
          by_cases hDue : toOccur.when ≤
              s.interrupt.stats.totalTicks
          · rcases fire_returns hReturn
              (s.setPending pending) toOccur with
              ⟨t, hFire, hFired⟩
            have hShorter : t.due.length < fuel := by
              rw [due_eq_cons hPending hDue, ← hFired.due,
                List.length_cons] at hFuel
              omega
            rw [hPending] at hSorted
            have hNext := hFired.sorted
              (List.pairwise_cons.mp hSorted).2
            rcases ih (hFired.level.trans hLevel) hNext
              hShorter with ⟨u, more, hRun, hRest⟩
            refine ⟨u, toOccur :: more, ?_,
              hRest.of_fired hPending hDue hFired⟩
            rw [drain, checkIfDue_due hLevel hPending hDue
              hLone hFire]
            exact hRun
          · have hLate := not_le.mp hDue
            have hLater :=
              later_of_sorted hSorted hPending hLate
            refine ⟨s.setPending
              (PriorityList.insert (·.when) toOccur pending),
              [], ?_, .of_later hLater rfl rfl ?_⟩
            · rw [drain,
                checkIfDue_late hLevel hPending hLate]
              rfl
            · intro p
              rw [hPending]
              exact PriorityList.mem_insert.trans
                List.mem_cons.symm

theorem drain_returns
    (hReturn : dev.Returning)
    {fuel : Nat}
    (hLevel : s.interrupt.level = .off)
    (hStatus : s.interrupt.status ≠ .idle)
    (hSorted :
      PriorityList.Sorted (·.when) s.interrupt.pending)
    (hFuel : s.due.length < fuel) :
    ∃ t, drain dev fuel s = some t ∧ Drained s t := by
  rcases drain_looped hReturn hLevel hSorted hFuel with
    ⟨t, more, hRun, hLooped⟩
  rcases hLooped.ended with ⟨rfl, hLater⟩ | ⟨hIdle, _⟩
  · exact ⟨t, hRun, hLooped.stats, hLooped.fired,
      hLooped.kept, hLater⟩
  · exact absurd hIdle hStatus

theorem oneTick_eq
    (s : Sim H κ) :
    s.oneTick dev =
      (drain dev s.ticked.rounds s.ticked).bind fun u =>
        if u.interrupt.yieldOnReturn then
          some (some s.interrupt.status,
            { u with
              interrupt :=
                { u.interrupt.changeLevel .on with
                  yieldOnReturn := false
                  status := .system } })
        else
          some (none,
            { u with
              interrupt := u.interrupt.changeLevel .on }) :=
  rfl

/-
  A tick drains what is due.  With any number of rounds that
  is enough the loop ends in one and the same state, so it
  ends by itself, and the tick returns.
-/
theorem tick_drains
    (hReturn : dev.Returning)
    {s : Sim H κ}
    (hStatus :
      s.interrupt.status = .system ∨
        s.interrupt.status = .user)
    (hSorted :
      PriorityList.Sorted (·.when) s.interrupt.pending) :
    (∃ u, ∀ fuel, s.ticked.rounds ≤ fuel →
      drain dev fuel s.ticked = some u) ∧
    ∃ yield t, s.oneTick dev = some (yield, t) ∧
      Drained s.ticked t := by
  rcases s.interrupt.advance_eq with ⟨stats, _, hAdvance⟩
  have hBusy : s.ticked.interrupt.status ≠ .idle := by
    rw [ticked, hAdvance]
    rcases hStatus with hEq | hEq <;>
      simp [Interrupt.changeLevel, hEq]
  have hTicked : PriorityList.Sorted (·.when)
      s.ticked.interrupt.pending := by
    rw [ticked, hAdvance]
    exact hSorted
  have hRounds : s.ticked.due.length < s.ticked.rounds :=
    Nat.lt_succ_of_le (List.length_filter_le _ _)
  rcases drain_returns hReturn rfl hBusy hTicked hRounds with
    ⟨u, hRun, hDrained⟩
  refine ⟨⟨u, ?_⟩, ?_⟩
  · intro fuel hFuel
    rw [drain_stable hFuel]
    exact hRun
  · rw [oneTick_eq, hRun, Option.bind_some]
    split
    · exact ⟨_, _, rfl, hDrained.stats, hDrained.fired,
        hDrained.kept, hDrained.later⟩
    · exact ⟨_, _, rfl, hDrained.stats, hDrained.fired,
        hDrained.kept, hDrained.later⟩

theorem rearming_returning :
    rearming.Returning := by
  intro timer i k
  cases timer with
  | true =>
      refine List.forall_mem_cons.mpr ⟨?_, ?_⟩
      · exact (by decide : (0 : Int) < 100)
      · exact List.forall_mem_singleton.mpr trivial
  | false => exact List.forall_mem_nil _

/- A disk and a timer that are due, and a console later. -/
def dueTogether : Sim Bool Unit where
  interrupt :=
    { Interrupt.create with
      pending :=
        [⟨false, 5, .disk, 0⟩, ⟨true, 10, .timer, 1⟩,
          ⟨false, 11, .consoleRead, 2⟩] }
  rest := ()

theorem tick_drains_timer :
    ∃ yield t,
      dueTogether.oneTick rearming = some (yield, t) ∧
      t.interrupt.fired.map (fun f => f.1.serial) = [0, 1] ∧
      ∀ p ∈ t.interrupt.pending,
        t.interrupt.stats.totalTicks < p.when := by
  have hSorted : PriorityList.Sorted (·.when)
      dueTogether.interrupt.pending := by
    simp [PriorityList.Sorted, dueTogether]
  rcases (tick_drains rearming_returning (Or.inl rfl)
    hSorted).2 with ⟨yield, t, hRun, hDrained⟩
  refine ⟨yield, t, hRun, ?_, hDrained.later⟩
  rw [hDrained.fired]
  rfl

end Sim

end Nachos
