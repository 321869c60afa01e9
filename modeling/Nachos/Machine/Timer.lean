import Nachos.Machine.Idling

/-
  The timer device, which shares the machine with others.

  Whenever it expires the timer schedules its next interrupt
  and asks for a context switch.  So exactly one interrupt of
  the timer is pending at any time, at most `2 * TimerTicks`
  ahead, and no thread can compute for longer than that.

  Main declarations:
    * `timeSharing`
    * `Sim.ticks`
    * `Sim.steady_armed`
    * `Sim.oneTick_before`
    * `Sim.preempted_in_time`
-/

------------------------------------
-- The Device
------------------------------------

namespace Nachos

variable {H κ ω : Type}

abbrev TimerTicks : Int := 100

/- What the host gives as a random number is not negative. -/
def timeOfNextInterrupt
    (randomize : Bool)
    (random : Nat) :
    Int :=
  if randomize then
    1 + (random : Int) % (TimerTicks * 2)
  else
    TimerTicks

/-
  Handlers of other devices are told from the timer, which is
  `none`.  Only the timer schedules itself.
-/
def HandlerCall.ofOther :
    HandlerCall H ω → HandlerCall (Option H) ω
| .schedule handler fromNow type =>
    .schedule (some handler) fromNow type
| .yieldOnReturn => .yieldOnReturn
| .device op => .device op

/- The handler that the kernel gives to the timer. -/
def timerInterruptHandler
    (i : Interrupt (Option H)) :
    List (HandlerCall (Option H) ω) :=
  if i.status ≠ .idle then [.yieldOnReturn] else []

def timerExpired
    (randomize : Bool)
    (random : Nat)
    (i : Interrupt (Option H)) :
    List (HandlerCall (Option H) ω) :=
  .schedule none (timeOfNextInterrupt randomize random)
    .timer :: timerInterruptHandler i

/-
  The handlers of all devices.  The next random number may
  depend on everything that has happened.
-/
def timeSharing
    (randomize : Bool)
    (random : Interrupt (Option H) → κ → Nat)
    (others :
      H → Interrupt (Option H) → κ →
        List (HandlerCall H ω)) :
    Option H → Interrupt (Option H) → κ →
      List (HandlerCall (Option H) ω)
| none, i, k => timerExpired randomize (random i k) i
| some handler, i, k =>
    (others handler i k).map HandlerCall.ofOther

theorem timeOfNextInterrupt_bounds
    (randomize : Bool)
    (random : Nat) :
    0 < timeOfNextInterrupt randomize random ∧
      timeOfNextInterrupt randomize random ≤
        TimerTicks * 2 := by
  unfold timeOfNextInterrupt TimerTicks
  split <;> omega

end Nachos

------------------------------------
-- The Pending Timer
------------------------------------

namespace Nachos

variable {H : Type}

def PendingInterrupt.isTimer
    (p : PendingInterrupt (Option H)) :
    Bool :=
  p.handler.isNone

namespace Interrupt

/- The pending interrupts of the timer. -/
def timers
    (i : Interrupt (Option H)) :
    List (PendingInterrupt (Option H)) :=
  i.pending.filter PendingInterrupt.isTimer

/- This is the only pending interrupt of the timer. -/
structure Ticks
    (p : PendingInterrupt (Option H))
    (i : Interrupt (Option H)) : Prop where
  only : i.timers = [p]
  sorted : PriorityList.Sorted (·.when) i.pending

/- The timer is set, and not for too late. -/
def Armed
    (i : Interrupt (Option H)) : Prop :=
  ∃ p, Ticks p i ∧
    p.when ≤ i.stats.totalTicks + TimerTicks * 2

namespace Ticks

variable {p toOccur : PendingInterrupt (Option H)}
variable {pending : List (PendingInterrupt (Option H))}
variable {i j : Interrupt (Option H)}

theorem of_eq
    (hTicks : Ticks p i)
    (hPending : j.pending = i.pending) :
    Ticks p j where
  only := by
    rw [timers, hPending]
    exact hTicks.only
  sorted := by
    rw [hPending]
    exact hTicks.sorted

theorem mem
    (hTicks : Ticks p i) :
    p ∈ i.pending := by
  have hMem : p ∈ i.timers := by
    rw [hTicks.only]
    exact List.mem_singleton_self p
  exact List.mem_of_mem_filter hMem

theorem putBack
    (hTicks : Ticks p i)
    (hPending : i.pending = toOccur :: pending) :
    Ticks p
      { i with
        pending :=
          PriorityList.insert (·.when) toOccur pending } where
  only := by
    have hPerm := (PriorityList.perm_insert (·.when) toOccur
      pending).filter PendingInterrupt.isTimer
    rw [← hPending] at hPerm
    exact List.perm_singleton.mp
      (hPerm.trans (.of_eq hTicks.only))
  sorted := by
    have hSorted := hTicks.sorted
    rw [hPending] at hSorted
    exact PriorityList.sorted_insert _
      (List.pairwise_cons.mp hSorted).2

/- An interrupt of another device is taken from the list. -/
theorem pop_other
    (hTicks : Ticks p i)
    (hPending : i.pending = toOccur :: pending)
    (hOther : toOccur.isTimer = false) :
    Ticks p { i with pending := pending } where
  only := by
    have hOnly := hTicks.only
    rw [timers, hPending,
      List.filter_cons_of_neg (by simp [hOther])] at hOnly
    exact hOnly
  sorted := by
    have hSorted := hTicks.sorted
    rw [hPending] at hSorted
    exact (List.pairwise_cons.mp hSorted).2

/- The timer itself is taken from the list. -/
theorem pop_timer
    (hTicks : Ticks p i)
    (hPending : i.pending = toOccur :: pending)
    (hTimer : toOccur.isTimer = true) :
    pending.filter PendingInterrupt.isTimer = [] ∧
      PriorityList.Sorted (·.when) pending := by
  refine ⟨?_, ?_⟩
  · have hOnly := hTicks.only
    rw [timers, hPending,
      List.filter_cons_of_pos hTimer] at hOnly
    exact (List.cons.inj hOnly).2
  · have hSorted := hTicks.sorted
    rw [hPending] at hSorted
    exact (List.pairwise_cons.mp hSorted).2

/- Other devices schedule their own interrupts. -/
theorem schedule
    {handler : H}
    {fromNow : Int}
    {type : IntType}
    (hTicks : Ticks p i)
    (hRun :
      i.schedule (some handler) fromNow type = some j) :
    Ticks p j ∧ j.stats = i.stats := by
  rcases schedule_cases hRun with
    ⟨_, toOccur, hHandler, _, _, _, rfl⟩
  refine ⟨⟨?_, ?_⟩, rfl⟩
  · have hDrop : toOccur.isTimer = false := by
      rw [PendingInterrupt.isTimer, hHandler]
      rfl
    exact (PriorityList.filter_insert hDrop i.pending).trans
      hTicks.only
  · exact PriorityList.sorted_insert _ hTicks.sorted

end Ticks

variable {i j : Interrupt (Option H)}

/- Time passes, and the interrupts stay pending. -/
theorem Armed.of_le
    (hArmed : i.Armed)
    (hPending : j.pending = i.pending)
    (hClock : i.stats.totalTicks ≤ j.stats.totalTicks) :
    j.Armed := by
  rcases hArmed with ⟨p, hTicks, hWhen⟩
  exact ⟨p, hTicks.of_eq hPending, by omega⟩

/- With no interrupt of its own the timer is set again. -/
theorem armed_of_schedule
    {randomize : Bool}
    {random : Nat}
    {type : IntType}
    (hNone : i.timers = [])
    (hSorted : PriorityList.Sorted (·.when) i.pending)
    (hRun :
      i.schedule none (timeOfNextInterrupt randomize random)
        type = some j) :
    j.Armed := by
  rcases schedule_cases hRun with
    ⟨_, toOccur, hHandler, hWhen, _, _, rfl⟩
  refine ⟨toOccur, ⟨?_, ?_⟩, ?_⟩
  · have hPerm := (PriorityList.perm_insert (·.when) toOccur
      i.pending).filter PendingInterrupt.isTimer
    have hTimer : toOccur.isTimer = true := by
      rw [PendingInterrupt.isTimer, hHandler]
      rfl
    rw [List.filter_cons_of_pos hTimer] at hPerm
    have hRest :
        i.pending.filter PendingInterrupt.isTimer = [] :=
      hNone
    rw [hRest] at hPerm
    exact List.perm_singleton.mp hPerm
  · exact PriorityList.sorted_insert _ hSorted
  · have hBounds :=
      (timeOfNextInterrupt_bounds randomize random).2
    dsimp only
    omega

end Interrupt

end Nachos

------------------------------------
-- Handlers
------------------------------------

namespace Nachos

namespace Sim

variable {H κ ω : Type}
variable {dev : Device (Option H) κ ω}
variable {randomize : Bool}
variable {random : Interrupt (Option H) → κ → Nat}
variable
  {others :
    H → Interrupt (Option H) → κ → List (HandlerCall H ω)}
variable {p toOccur : PendingInterrupt (Option H)}
variable {pending : List (PendingInterrupt (Option H))}
variable {s t : Sim (Option H) κ}

theorem perform_other
    {call : HandlerCall H ω}
    (hTicks : s.interrupt.Ticks p)
    (hRun : s.perform dev call.ofOther = some t) :
    t.interrupt.Ticks p ∧
      t.interrupt.stats = s.interrupt.stats := by
  cases call with
  | schedule handler fromNow type =>
      rcases Option.bind_eq_some_iff.mp hRun with
        ⟨i, hSchedule, hEq⟩
      cases hEq
      exact hTicks.schedule hSchedule
  | yieldOnReturn =>
      rcases Option.bind_eq_some_iff.mp hRun with
        ⟨i, hYield, hEq⟩
      cases hEq
      rcases Interrupt.setYieldOnReturn_cases hYield with
        ⟨_, rfl⟩
      exact ⟨hTicks.of_eq rfl, rfl⟩
  | device op =>
      rcases Option.bind_eq_some_iff.mp hRun with
        ⟨rest, _, hEq⟩
      cases hEq
      exact ⟨hTicks, rfl⟩

/- A handler of another device leaves the timer alone. -/
theorem fire_other
    (hBody : dev.body = timeSharing randomize random others)
    (hOther : toOccur.isTimer = false)
    (hTicks : s.interrupt.Ticks p)
    (hRun : s.fire dev toOccur = some t) :
    t.interrupt.Ticks p ∧
    t.interrupt.stats = s.interrupt.stats ∧
    t.interrupt.status = s.interrupt.status := by
  rcases Option.bind_eq_some_iff.mp hRun with
    ⟨u, hFold, hEq⟩
  cases hEq
  obtain ⟨handler, hHandler⟩ :
      ∃ handler, toOccur.handler = some handler :=
    Option.isSome_iff_exists.mp
      (by simpa [PendingInterrupt.isTimer] using hOther)
  rw [hBody, hHandler] at hFold
  have hEnd : u.interrupt.Ticks p ∧
      u.interrupt.stats = s.interrupt.stats := by
    refine Transition.foldlM_invariant_of_mem
      (P := fun u : Sim (Option H) κ =>
        u.interrupt.Ticks p ∧
          u.interrupt.stats = s.interrupt.stats)
      ?_ hFold ⟨hTicks.of_eq rfl, rfl⟩
    intro v call hCall w hv hPerform
    rcases List.mem_map.mp hCall with ⟨other, _, rfl⟩
    rcases perform_other hv.1 hPerform with ⟨hKept, hStats⟩
    exact ⟨hKept, hStats.trans hv.2⟩
  exact ⟨hEnd.1.of_eq rfl, hEnd.2, rfl⟩

/- The timer is set again and asks for a context switch. -/
theorem fire_timer
    (hBody : dev.body = timeSharing randomize random others)
    (hTimer : toOccur.isTimer = true)
    (hNone : s.interrupt.timers = [])
    (hSorted :
      PriorityList.Sorted (·.when) s.interrupt.pending)
    (hRun : s.fire dev toOccur = some t) :
    t.interrupt.Armed ∧ t.interrupt.yieldOnReturn = true := by
  rcases Option.bind_eq_some_iff.mp hRun with
    ⟨u, hFold, hEq⟩
  cases hEq
  have hHandler : toOccur.handler = none :=
    Option.isNone_iff_eq_none.mp hTimer
  -- within a handler the machine is never idle
  have hCalls : dev.body toOccur.handler
      (s.enter dev toOccur).interrupt
      (s.enter dev toOccur).rest =
      [.schedule none
          (timeOfNextInterrupt randomize
            (random (s.enter dev toOccur).interrupt
              (s.enter dev toOccur).rest)) .timer,
        .yieldOnReturn] := by
    rw [hBody, hHandler]
    rfl
  rw [hCalls, List.foldlM_cons] at hFold
  rcases Option.bind_eq_some_iff.mp hFold with
    ⟨v, hFirst, hRest⟩
  rcases Option.bind_eq_some_iff.mp hFirst with
    ⟨i, hSchedule, hEq⟩
  cases hEq
  rw [List.foldlM_cons] at hRest
  rcases Option.bind_eq_some_iff.mp hRest with
    ⟨w, hYield, hEq⟩
  cases hEq
  rcases Option.bind_eq_some_iff.mp hYield with
    ⟨j, hFlag, hEq⟩
  cases hEq
  rcases Interrupt.setYieldOnReturn_cases hFlag with
    ⟨_, rfl⟩
  have hArmed : i.Armed := Interrupt.armed_of_schedule
    (i := (s.enter dev toOccur).interrupt) hNone hSorted
    hSchedule
  exact ⟨hArmed.of_le rfl le_rfl, rfl⟩

/- The timer is armed at all times. -/
theorem steady_armed
    (hBody : dev.body = timeSharing randomize random others) :
    Steady dev fun s => s.interrupt.Armed where
  flags := fun _ _ _ _ _ hArmed => hArmed.of_le rfl le_rfl
  advance := by
    intro s hArmed
    rcases s.interrupt.advance_eq with ⟨stats, hLt, hEq⟩
    rw [hEq]
    exact hArmed.of_le rfl hLt.le
  advanceTo := fun _ _ hArmed hLater =>
    hArmed.of_le rfl hLater
  putBack := by
    rintro s toOccur pending ⟨p, hTicks, hWhen⟩ hPending
    exact ⟨p, hTicks.putBack hPending, hWhen⟩
  fire := by
    rintro s toOccur pending t ⟨p, hTicks, hWhen⟩ hPending _
      hRun
    cases hTimer : toOccur.isTimer with
    | true =>
        rcases hTicks.pop_timer hPending hTimer with
          ⟨hNone, hSorted⟩
        exact (fire_timer (s := s.setPending pending) hBody
          hTimer hNone hSorted hRun).1
    | false =>
        rcases fire_other (s := s.setPending pending) hBody
          hTimer (hTicks.pop_other hPending hTimer) hRun with
          ⟨hKept, hStats, _⟩
        refine ⟨p, hKept, ?_⟩
        rw [hStats]
        exact hWhen

end Sim

end Nachos

------------------------------------
-- Ticks
------------------------------------

namespace Nachos

namespace Sim

section Yields

variable {H κ ω : Type}
variable {dev : Device H κ ω}
variable {s t : Sim H κ}

/- Once asked for, the context switch is not forgotten. -/
theorem fire_yields
    {toOccur : PendingInterrupt H}
    (hYield : s.interrupt.yieldOnReturn = true)
    (hRun : s.fire dev toOccur = some t) :
    t.interrupt.yieldOnReturn = true := by
  rcases Option.bind_eq_some_iff.mp hRun with
    ⟨u, hFold, hEq⟩
  cases hEq
  have hPerform :
      ∀ (v : Sim H κ) call w,
        v.interrupt.yieldOnReturn = true →
        v.perform dev call = some w →
        w.interrupt.yieldOnReturn = true := by
    intro v call w hv hCall
    rcases perform_cases hCall with
      ⟨_, _, _, i, _, hSchedule, rfl⟩ | ⟨_, _, rfl⟩ |
        ⟨_, _, _, _, rfl⟩
    · rcases Interrupt.schedule_cases hSchedule with
        ⟨_, _, _, _, _, _, rfl⟩
      exact hv
    · rfl
    · exact hv
  have hEntered :
      (s.enter dev toOccur).interrupt.yieldOnReturn = true :=
    hYield
  have hEnd : u.interrupt.yieldOnReturn = true :=
    Transition.foldlM_invariant hPerform hFold hEntered
  exact hEnd

theorem drain_yields
    {fuel : Nat}
    (hYield : s.interrupt.yieldOnReturn = true)
    (hRun : drain dev fuel s = some t) :
    t.interrupt.yieldOnReturn = true := by
  induction fuel generalizing s with
  | zero => cases hRun
  | succ fuel ih =>
      rcases Option.bind_eq_some_iff.mp hRun with
        ⟨⟨fired, u⟩, hCheck, hRest⟩
      have hNext : u.interrupt.yieldOnReturn = true := by
        rcases (checkIfDue_cases hCheck).2 with
          ⟨_, _, rfl⟩ | ⟨toOccur, pending, v, _, hClock, hEnd⟩
        · exact hYield
        have hv : v.interrupt.yieldOnReturn = true := by
          rcases hClock with rfl | ⟨_, _, rfl⟩
          · exact hYield
          · exact hYield
        rcases hEnd with ⟨_, rfl⟩ | ⟨_, _, hFire⟩
        · exact hv
        · exact fire_yields (s := v.setPending pending) hv
            hFire
      dsimp only at hRest
      split at hRest
      · exact ih hNext hRest
      · cases hRest
        exact hNext

/- Unless the machine is idle, what stays is due later. -/
theorem checkIfDue_stays
    (hStatus : s.interrupt.status ≠ .idle)
    (hSorted :
      PriorityList.Sorted (·.when) s.interrupt.pending)
    (hRun : s.checkIfDue dev false = some (false, t)) :
    ∀ p ∈ s.interrupt.pending,
      s.interrupt.stats.totalTicks < p.when := by
  unfold checkIfDue at hRun
  split at hRun
  · split at hRun
    · rename_i hNone
      rw [hNone]
      exact fun p hp => absurd hp List.not_mem_nil
    · rename_i toOccur pending hPending
      dsimp only at hRun
      split at hRun
      · rename_i hLate
        exact later_of_sorted hSorted hPending hLate.1
      · rename_i hDue
        have hNow : ¬ toOccur.when >
            s.interrupt.stats.totalTicks :=
          fun hLate => hDue ⟨hLate, rfl⟩
        rw [if_neg hNow, if_neg fun hIdle => hStatus hIdle.1]
          at hRun
        rcases Option.bind_eq_some_iff.mp hRun with
          ⟨u, _, hEq⟩
        cases hEq
  · cases hRun

end Yields

section Slices

variable {H κ ω : Type}
variable {dev : Device (Option H) κ ω}
variable {randomize : Bool}
variable {random : Interrupt (Option H) → κ → Nat}
variable
  {others :
    H → Interrupt (Option H) → κ → List (HandlerCall H ω)}
variable {p : PendingInterrupt (Option H)}
variable {s t : Sim (Option H) κ}

/-
  The handlers that are due run without a context switch:
  the timer was not among them.
-/
theorem drain_before
    (hBody : dev.body = timeSharing randomize random others)
    {fuel : Nat}
    (hStatus : s.interrupt.status ≠ .idle)
    (hTicks : s.interrupt.Ticks p)
    (hRun : drain dev fuel s = some t)
    (hYield : t.interrupt.yieldOnReturn = false) :
    t.interrupt.Ticks p ∧
    t.interrupt.stats = s.interrupt.stats ∧
    t.interrupt.status = s.interrupt.status ∧
    s.interrupt.stats.totalTicks < p.when := by
  induction fuel generalizing s with
  | zero => cases hRun
  | succ fuel ih =>
      rcases Option.bind_eq_some_iff.mp hRun with
        ⟨⟨fired, u⟩, hCheck, hRest⟩
      rcases (checkIfDue_cases hCheck).2 with
        ⟨hNone, _, _⟩ |
          ⟨toOccur, pending, v, hPending, hClock, hEnd⟩
      · have hMem := hTicks.mem
        rw [hNone] at hMem
        exact absurd hMem List.not_mem_nil
      -- the clock does not move in a tick
      rcases hClock with rfl | ⟨hMoves, _⟩
      swap
      · cases hMoves
      rcases hEnd with ⟨rfl, rfl⟩ | ⟨rfl, _, hFire⟩
      · cases hRest
        exact ⟨hTicks.putBack hPending, rfl, rfl,
          checkIfDue_stays hStatus hTicks.sorted hCheck p
            hTicks.mem⟩
      · dsimp only at hRest
        rw [if_pos rfl] at hRest
        cases hTimer : toOccur.isTimer with
        | true =>
            rcases hTicks.pop_timer hPending hTimer with
              ⟨hNone, hSorted⟩
            have hAsked := (fire_timer
              (s := v.setPending pending) hBody hTimer hNone
              hSorted hFire).2
            rw [drain_yields hAsked hRest] at hYield
            cases hYield
        | false =>
            rcases fire_other (s := v.setPending pending)
              hBody hTimer (hTicks.pop_other hPending hTimer)
              hFire with ⟨hKept, hStats, hSame⟩
            rcases ih (by rw [hSame]; exact hStatus) hKept
              hRest with ⟨hTicks', hStats', hSame', hLater⟩
            refine ⟨hTicks', hStats'.trans hStats,
              hSame'.trans hSame, ?_⟩
            rw [hStats] at hLater
            exact hLater

/- A tick that ends without a yield is before the timer. -/
theorem oneTick_before
    (hBody : dev.body = timeSharing randomize random others)
    (hStatus : s.interrupt.status ≠ .idle)
    (hTicks : s.interrupt.Ticks p)
    (hRun : s.oneTick dev = some (none, t)) :
    t.interrupt.Ticks p ∧
    t.interrupt.status = s.interrupt.status ∧
    s.interrupt.stats.totalTicks <
      t.interrupt.stats.totalTicks ∧
    t.interrupt.stats.totalTicks < p.when := by
  rcases Option.bind_eq_some_iff.mp hRun with
    ⟨u, hDrain, hRest⟩
  dsimp only at hRest
  split at hRest
  · cases hRest
  rename_i hAsked
  cases hRest
  rcases s.interrupt.advance_eq with ⟨stats, hLt, hEq⟩
  have hTicked : s.ticked.interrupt.Ticks p := by
    rw [ticked, hEq]
    exact hTicks.of_eq rfl
  have hSystem : s.ticked.interrupt.status =
      s.interrupt.status := by
    rw [ticked, hEq]
    rfl
  have hClock : s.ticked.interrupt.stats = stats := by
    rw [ticked, hEq]
    rfl
  rcases drain_before (s := s.ticked) hBody
      (by rw [hSystem]; exact hStatus) hTicked hDrain
      (Bool.eq_false_of_not_eq_true hAsked) with
    ⟨hKept, hStats, hSame, hLater⟩
  rw [hClock] at hStats hLater
  rw [hSystem] at hSame
  refine ⟨hKept.of_eq rfl, hSame, ?_, ?_⟩
  · dsimp only [Interrupt.changeLevel]
    rw [hStats]
    exact hLt
  · dsimp only [Interrupt.changeLevel]
    rw [hStats]
    exact hLater

end Slices

end Sim

end Nachos

------------------------------------
-- Preemption
------------------------------------

namespace Nachos

variable {H κ ω : Type}

/- Only the timer schedules its interrupts. -/
def Request.LeavesTimer :
    Request (Option H) ω → Prop
| .schedule handler _ _ => handler.isSome = true
| _ => True

namespace Sim

/- `Initialize` makes the timer, which sets itself. -/
def timeShared
    (dev : Device (Option H) κ ω)
    (randomize : Bool) :
    Transition.System (Sim (Option H) κ)
      (Request (Option H) ω) where
  init := fun s =>
    ∃ first,
      Interrupt.create.schedule none
        (timeOfNextInterrupt randomize first) .timer =
          some s.interrupt
  allowed := fun _ r => r.LeavesTimer
  step := request dev

/- A thread computes as long as it need not yield. -/
def ticks
    (dev : Device H κ ω) :
    Nat → Sim H κ → Option (Sim H κ)
| 0, s => some s
| n + 1, s => do
    let (yield, s) ← s.oneTick dev
    if yield = none then ticks dev n s else none

theorem ticks_succ
    {dev : Device H κ ω}
    {n : Nat}
    {s t u : Sim H κ}
    (hRun : s.ticks dev n = some t)
    (hNext : t.oneTick dev = some (none, u)) :
    s.ticks dev (n + 1) = some u := by
  induction n generalizing s with
  | zero =>
      cases hRun
      rw [ticks, hNext]
      rfl
  | succ n ih =>
      rw [ticks] at hRun
      rcases Option.bind_eq_some_iff.mp hRun with
        ⟨⟨yield, v⟩, hFirst, hRest⟩
      dsimp only at hRest
      split at hRest
      · rename_i hStays
        rw [ticks, hFirst]
        exact (if_pos hStays).trans (ih hRest)
      · cases hRest

variable {dev : Device (Option H) κ ω}
variable {randomize : Bool}
variable {random : Interrupt (Option H) → κ → Nat}
variable
  {others :
    H → Interrupt (Option H) → κ → List (HandlerCall H ω)}
variable {s t : Sim (Option H) κ}

theorem armed_of_reachable
    (hBody : dev.body = timeSharing randomize random others)
    (hReach : (timeShared dev randomize).Reachable s) :
    s.interrupt.Armed := by
  refine hReach.invariant
    (P := fun s : Sim (Option H) κ => s.interrupt.Armed) ?_ ?_
  · rintro s ⟨first, hFirst⟩
    exact Interrupt.armed_of_schedule (i := Interrupt.create)
      rfl List.Pairwise.nil hFirst
  · intro s r t hArmed hAllowed hRun
    refine (steady_armed hBody).request ?_ ?_ hArmed hRun
    · rintro handler fromNow type i rfl hNext
      rcases hArmed with ⟨p, hTicks, hWhen⟩
      rcases Option.isSome_iff_exists.mp hAllowed with
        ⟨other, rfl⟩
      rcases hTicks.schedule hNext with ⟨hKept, hStats⟩
      refine ⟨p, hKept, ?_⟩
      rw [hStats]
      exact hWhen
    · intro op rest _ _
      exact hArmed

/- As long as a thread computes the timer has not expired. -/
theorem ticks_before
    (hBody : dev.body = timeSharing randomize random others)
    {n : Nat}
    {p : PendingInterrupt (Option H)}
    (hStatus : s.interrupt.status ≠ .idle)
    (hTicks : s.interrupt.Ticks p)
    (hRun : s.ticks dev n = some t) :
    t.interrupt.status ≠ .idle ∧
    t.interrupt.Ticks p ∧
    s.interrupt.stats.totalTicks + n ≤
      t.interrupt.stats.totalTicks ∧
    (0 < n → t.interrupt.stats.totalTicks < p.when) := by
  induction n generalizing s with
  | zero =>
      cases hRun
      exact ⟨hStatus, hTicks, by simp,
        fun hPos => absurd hPos (by simp)⟩
  | succ n ih =>
      rw [ticks] at hRun
      rcases Option.bind_eq_some_iff.mp hRun with
        ⟨⟨yield, u⟩, hFirst, hRest⟩
      dsimp only at hRest
      split at hRest
      swap
      · cases hRest
      rename_i hStays
      rw [hStays] at hFirst
      rcases oneTick_before hBody hStatus hTicks hFirst with
        ⟨hKept, hSame, hLater, hBefore⟩
      rw [← hSame] at hStatus
      rcases ih hStatus hKept hRest with
        ⟨hBusy, hStill, hClock, hLast⟩
      refine ⟨hBusy, hStill, ?_, ?_⟩
      · push_cast
        omega
      · intro _
        cases n with
        | zero =>
            cases hRest
            exact hBefore
        | succ n => exact hLast (Nat.succ_pos n)

/- It computes for so many ticks or was made to yield. -/
theorem ticks_or
    {dev : Device H κ ω}
    {s : Sim H κ}
    (hGoes :
      ∀ n t, s.ticks dev n = some t →
        ∃ yield u, t.oneTick dev = some (yield, u))
    (m : Nat) :
    (∃ t, s.ticks dev m = some t) ∨
    ∃ n t old u,
      s.ticks dev n = some t ∧
      t.oneTick dev = some (some old, u) := by
  induction m with
  | zero => exact Or.inl ⟨s, rfl⟩
  | succ m ih =>
      rcases ih with ⟨t, hRun⟩ | hYield
      · rcases hGoes m t hRun with ⟨yield, u, hNext⟩
        cases yield with
        | none => exact Or.inl ⟨u, ticks_succ hRun hNext⟩
        | some old => exact Or.inr ⟨m, t, old, u, hRun, hNext⟩
      · exact Or.inr hYield

/-
  A thread that only computes, while no handler fails, is
  made to yield before `2 * TimerTicks` ticks have passed.
-/
theorem preempted_in_time
    (hBody : dev.body = timeSharing randomize random others)
    (hReach : (timeShared dev randomize).Reachable s)
    (hStatus : s.interrupt.status ≠ .idle)
    (hGoes :
      ∀ n t, s.ticks dev n = some t →
        ∃ yield u, t.oneTick dev = some (yield, u)) :
    ∃ n t old u,
      s.ticks dev n = some t ∧
      (n : Int) < TimerTicks * 2 ∧
      t.interrupt.stats.totalTicks <
        s.interrupt.stats.totalTicks + TimerTicks * 2 ∧
      t.oneTick dev = some (some old, u) := by
  rcases armed_of_reachable hBody hReach with
    ⟨p, hTicks, hWhen⟩
  rcases ticks_or hGoes 200 with
    ⟨t, hRun⟩ | ⟨n, t, old, u, hRun, hYield⟩
  · -- so many ticks would take the clock past the timer
    rcases ticks_before hBody hStatus hTicks hRun with
      ⟨_, _, hClock, hLast⟩
    have hLate := hLast (by decide)
    unfold TimerTicks at hWhen
    omega
  · rcases ticks_before hBody hStatus hTicks hRun with
      ⟨_, _, hClock, hLast⟩
    have hTime : t.interrupt.stats.totalTicks <
        s.interrupt.stats.totalTicks + TimerTicks * 2 := by
      rcases Nat.eq_zero_or_pos n with rfl | hPos
      · cases hRun
        unfold TimerTicks
        omega
      · exact (hLast hPos).trans_le hWhen
    refine ⟨n, t, old, u, hRun, ?_, hTime, hYield⟩
    omega

/- There is no device but the timer. -/
def soleTimer :
    Device (Option Empty) Unit Empty where
  delayedLoad := id
  exec := fun op => nomatch op
  body :=
    timeSharing false (fun _ _ => 0) fun handler =>
      nomatch handler

theorem returning_soleTimer :
    soleTimer.Returning := by
  intro handler i k call hCall
  cases handler with
  | some other => nomatch other
  | none =>
      have hMem : call ∈ timerExpired false 0 i := hCall
      unfold timerExpired timerInterruptHandler at hMem
      rcases List.mem_cons.mp hMem with rfl | hMem
      · exact (timeOfNextInterrupt_bounds false 0).1
      · split at hMem
        · rw [List.mem_singleton.mp hMem]
          trivial
        · exact absurd hMem List.not_mem_nil

/- A thread computes right after the timer was made. -/
theorem preempted_in_time_sole :
    ∃ (s : Sim (Option Empty) Unit) (n : Nat)
        (t : Sim (Option Empty) Unit) (old : MachineStatus)
        (u : Sim (Option Empty) Unit),
      s.ticks soleTimer n = some t ∧ n < 200 ∧
      t.oneTick soleTimer = some (some old, u) := by
  have hReach : (timeShared soleTimer false).Reachable
      ⟨{ Interrupt.create with
        pending := [⟨none, 100, .timer, 0⟩]
        scheduled := [⟨none, 100, .timer, 0⟩] }, ()⟩ :=
    .of_init ⟨0, rfl⟩
  rcases armed_of_reachable rfl hReach with ⟨p, hTicks, _⟩
  rcases preempted_in_time rfl hReach (by decide)
      (fun n t hRun => by
        rcases ticks_before rfl (by decide) hTicks hRun with
          ⟨hBusy, hStill, _⟩
        exact oneTick_returns returning_soleTimer hBusy
          hStill.sorted) with
    ⟨n, t, old, u, hRun, hFew, _, hYield⟩
  refine ⟨_, n, t, old, u, hRun, ?_, hYield⟩
  unfold TimerTicks at hFew
  omega

end Sim

end Nachos
