import Nachos.Machine.Elevator

/-
  What holds in every run of a bank of elevators.

  A moving elevator is never forgotten: although a call of
  the handler asks for at most one further interrupt, that
  one comes late enough for every elevator that moved.

  Elevators stay in the building as long as one that moves
  away from the ground floor is not sent back to it before it
  has reached the next floor.

  Main declarations:
    * `ElevatorSim.Served`
    * `ElevatorInfo.Sound`
    * `ElevatorSim.invariant`
    * `ElevatorSim.served_of_reachable`
    * `ElevatorSim.inBuilding_of_reachable`
-/

------------------------------------
-- Effects of Calls
------------------------------------

namespace Nachos

/- Elevators that differ in display and riders only. -/
structure ElevatorInfo.SameMotion
    (e e' : ElevatorInfo) : Prop where
  doorsOpen_eq : e'.doorsOpen = e.doorsOpen
  inMotion_eq : e'.inMotion = e.inMotion
  lastFloor_eq : e'.lastFloor = e.lastFloor
  willArrive_eq : e'.willArrive = e.willArrive
  goingTo_eq : e'.goingTo = e.goingTo

namespace ElevatorSim

/- All that a call can do to the bank. -/
inductive Effect
    (s : ElevatorSim) :
    ElevatorCall → ElevatorSim → Prop
| opened
    {k : Int}
    {e : ElevatorInfo}
    {t : ElevatorSim} :
    s.rest.info k = some e →
    e.doorsOpen = false →
    e.inMotion = false →
    postEvent
      (setBank s (s.rest.setInfo k
        { e with doorsOpen := true }))
      .riders ⟨.doorsOpened, e.lastFloor, k⟩ = some t →
    Effect s (.openDoors k) t
| closed
    {k : Int}
    {e : ElevatorInfo} :
    s.rest.info k = some e →
    e.doorsOpen = true →
    Effect s (.closeDoors k)
      (setBank s (s.rest.setInfo k
        { e with doorsOpen := false }))
| started
    {k floor : Int}
    {e : ElevatorInfo}
    {t : ElevatorSim} :
    s.rest.info k = some e →
    0 ≤ floor →
    floor < s.rest.numFloors →
    e.doorsOpen = false →
    e.inMotion = false →
    e.lastFloor ≠ floor →
    scheduleDone
      (setBank s
        ((s.rest.setInfo k
          { e with
            goingTo := floor
            willArrive := now s + DelayPerFloor
            inMotion := true }).note
          (.moveTo k.toNat floor true (now s))))
      DelayPerFloor = some t →
    Effect s (.moveTo floor k) t
| retargeted
    {k floor : Int}
    {e : ElevatorInfo} :
    s.rest.info k = some e →
    0 ≤ floor →
    floor < s.rest.numFloors →
    e.doorsOpen = false →
    e.inMotion = true →
    Effect s (.moveTo floor k)
      (setBank s
        ((s.rest.setInfo k { e with goingTo := floor }).note
          (.moveTo k.toNat floor false (now s))))
| touched
    {c : ElevatorCall}
    {k : Int}
    {e e' : ElevatorInfo} :
    s.rest.info k = some e →
    e.SameMotion e' →
    Effect s c (setBank s (s.rest.setInfo k e'))
| pressed
    {c : ElevatorCall}
    {event : PendingElevatorEvent}
    {t : ElevatorSim} :
    event.event ≠ .elevatorArrived →
    postEvent s .controllers event = some t →
    Effect s c t
| retrieved
    {audience : Audience}
    {event : PendingElevatorEvent}
    {events : List PendingElevatorEvent} :
    s.rest.events audience = event :: events →
    Effect s (.getNextEvent audience)
      (setBank s ((s.rest.setEvents events audience).note
        (.retrieved audience event)))
| noEvent
    {audience : Audience} :
    s.rest.events audience = [] →
    Effect s (.getNextEvent audience) s

variable {s t : ElevatorSim}

theorem effect_of_moveTo
    {floor k : Int}
    (hRun : moveTo s floor k = some t) :
    Effect s (.moveTo floor k) t := by
  rcases Option.bind_eq_some_iff.mp hRun with
    ⟨e, hInfo, hRun⟩
  rcases Option.bind_eq_some_iff.mp hRun with
    ⟨_, hGuard, hRun⟩
  rw [Option.guard_eq_some'] at hGuard
  rcases Option.bind_eq_some_iff.mp hRun with
    ⟨⟨started, e'⟩, hMove, hRun⟩
  unfold ElevatorInfo.moveTo at hMove
  split at hMove
  · rename_i hReady
    split at hMove
    · rename_i hMoving
      cases hMove
      cases hRun
      exact .retargeted hInfo hGuard.1 hGuard.2 hReady.1
        hMoving
    · rename_i hNot
      have hRest := (Bool.not_eq_true _).mp hNot
      cases hMove
      exact .started hInfo hGuard.1 hGuard.2 hReady.1 hRest
        (hReady.2.resolve_left hNot) hRun
  · cases hMove

theorem effect_of_call
    {c : ElevatorCall}
    (hRun : call s c = some t) :
    Effect s c t := by
  cases c with
  | openDoors k =>
      rcases Option.bind_eq_some_iff.mp hRun with
        ⟨e, hInfo, hRun⟩
      rcases Option.bind_eq_some_iff.mp hRun with
        ⟨⟨floor, e'⟩, hOpen, hPost⟩
      unfold ElevatorInfo.openDoors at hOpen
      split at hOpen
      · rename_i hClosed
        cases hOpen
        exact .opened hInfo hClosed.1 hClosed.2 hPost
      · cases hOpen
  | closeDoors k =>
      rcases Option.bind_eq_some_iff.mp hRun with
        ⟨e, hInfo, hRun⟩
      rcases Option.bind_eq_some_iff.mp hRun with
        ⟨e', hClose, hEnd⟩
      unfold ElevatorInfo.closeDoors at hClose
      split at hClose
      · rename_i hOpen
        cases hClose
        cases hEnd
        exact .closed hInfo hOpen
      · cases hClose
  | moveTo floor k => exact effect_of_moveTo hRun
  | markDirection k dir =>
      rcases Option.bind_eq_some_iff.mp hRun with
        ⟨e, hInfo, hEnd⟩
      cases hEnd
      exact .touched hInfo ⟨rfl, rfl, rfl, rfl, rfl⟩
  | pressButton floor dir =>
      rcases Option.bind_eq_some_iff.mp hRun with
        ⟨_, _, hPost⟩
      refine .pressed ?_ hPost
      dsimp only
      split <;> exact ElevatorEvent.noConfusion
  | enterElevator thread floor k =>
      rcases Option.bind_eq_some_iff.mp hRun with
        ⟨_, _, hRun⟩
      rcases Option.bind_eq_some_iff.mp hRun with
        ⟨e, hInfo, hRun⟩
      rcases Option.bind_eq_some_iff.mp hRun with
        ⟨⟨entered, e'⟩, hEnter, hEnd⟩
      cases hEnd
      apply Effect.touched hInfo
      unfold ElevatorInfo.enter at hEnter
      split at hEnter
      · cases hEnter
        exact ⟨rfl, rfl, rfl, rfl, rfl⟩
      · split at hEnter
        · cases hEnter
          exact ⟨rfl, rfl, rfl, rfl, rfl⟩
        · cases hEnter
  | pressFloor floor k =>
      rcases Option.bind_eq_some_iff.mp hRun with
        ⟨_, _, hRun⟩
      rcases Option.bind_eq_some_iff.mp hRun with
        ⟨_, _, hPost⟩
      exact .pressed ElevatorEvent.noConfusion hPost
  | exitElevator thread floor k =>
      rcases Option.bind_eq_some_iff.mp hRun with
        ⟨_, _, hRun⟩
      rcases Option.bind_eq_some_iff.mp hRun with
        ⟨e, hInfo, hRun⟩
      rcases Option.bind_eq_some_iff.mp hRun with
        ⟨⟨left, e'⟩, hExit, hEnd⟩
      cases hEnd
      apply Effect.touched hInfo
      unfold ElevatorInfo.exit at hExit
      split at hExit
      · cases hExit
        exact ⟨rfl, rfl, rfl, rfl, rfl⟩
      · split at hExit
        · cases hExit
          exact ⟨rfl, rfl, rfl, rfl, rfl⟩
        · cases hExit
  | getNextEvent audience =>
      have hNext := Option.some.inj hRun
      unfold getNextEvent at hNext
      split at hNext
      · rename_i hNone
        cases hNext
        exact .noEvent hNone
      · rename_i hSome
        cases hNext
        exact .retrieved hSome

end ElevatorSim

end Nachos

------------------------------------
-- Rounds of the Handler
------------------------------------

namespace Nachos

namespace ElevatorInfo

variable {l : List ElevatorInfo}
variable {intSched : Bool}
variable {now : Int}
variable {i : Nat}

/- The floor at which a moving elevator comes next. -/
def nextFloor
    (e : ElevatorInfo) :
    Int :=
  e.lastFloor + if e.goingTo > e.lastFloor then 1 else -1

/-
  All that the handler can do with an elevator: leave it
  alone, let it arrive, or send it on.
-/
theorem serve_cases
    (e : ElevatorInfo)
    (now : Int)
    (i : Nat)
    (intSched : Bool) :
    ((e.inMotion = true → now < e.willArrive) ∧
      e.serve now i intSched = ⟨[e], [], [], intSched⟩) ∨
    (e.inMotion = true ∧ e.willArrive ≤ now ∧
      e.nextFloor = e.goingTo ∧
      e.serve now i intSched =
        ⟨[{ e with
            lastFloor := e.nextFloor
            inMotion := false }],
          [⟨.elevatorArrived, e.goingTo, i⟩],
          [.reached i e.nextFloor now,
            .posted .controllers
              ⟨.elevatorArrived, e.goingTo, i⟩ true],
          intSched⟩) ∨
    (e.inMotion = true ∧ e.willArrive ≤ now ∧
      e.nextFloor ≠ e.goingTo ∧
      e.serve now i intSched =
        ⟨[{ e with
            lastFloor := e.nextFloor
            willArrive :=
              if intSched then
                e.willArrive
              else
                e.willArrive + DelayPerFloor }],
          [], [.reached i e.nextFloor now], true⟩) := by
  by_cases hReached : e.inMotion = true ∧ now ≥ e.willArrive
  · have hNext : e.reachedNextFloor now =
        (true, { e with lastFloor := e.nextFloor }) :=
      if_pos hReached
    by_cases hArrived : e.nextFloor = e.goingTo
    · refine Or.inr (Or.inl
        ⟨hReached.1, hReached.2, hArrived, ?_⟩)
      simp only [serve, hNext, checkArrived, hReached.1,
        hArrived, and_self, if_true]
    · refine Or.inr (Or.inr
        ⟨hReached.1, hReached.2, hArrived, ?_⟩)
      simp only [serve, hNext, checkArrived, hArrived,
        and_false, if_true, if_false, Bool.false_eq_true]
      cases intSched with
      | false => rfl
      | true => rfl
  · have hNext : e.reachedNextFloor now = (false, e) :=
      if_neg hReached
    refine Or.inl ⟨?_, ?_⟩
    · intro hMoving
      exact not_le.mp fun hDue => hReached ⟨hMoving, hDue⟩
    · simp only [serve, hNext, Bool.false_eq_true, if_false]

/- An interrupt that is asked for stays asked for. -/
theorem serve_intSched
    (e : ElevatorInfo)
    (now : Int)
    (i : Nat) :
    (e.serve now i true).intSched = true := by
  rcases e.serve_cases now i true with
    ⟨_, hEq⟩ | ⟨_, _, _, hEq⟩ | ⟨_, _, _, hEq⟩
  · rw [hEq]
  · rw [hEq]
  · rw [hEq]

theorem serveAll_intSched
    (hAsked : intSched = true) :
    (serveAll now l i intSched).intSched = true := by
  induction l generalizing i intSched with
  | nil => exact hAsked
  | cons e l ih =>
      subst hAsked
      exact ih (serve_intSched e now i)

/- The elevators of a round come from those before. -/
theorem mem_serveAll
    {e' : ElevatorInfo}
    (hMem : e' ∈ (serveAll now l i intSched).elevators) :
    ∃ e ∈ l, ∃ j asked,
      e' ∈ (e.serve now j asked).elevators ∧
      ((e.serve now j asked).intSched = true →
        (serveAll now l i intSched).intSched = true) := by
  induction l generalizing i intSched with
  | nil => cases hMem
  | cons e l ih =>
      rcases List.mem_append.mp hMem with hFirst | hOther
      · exact ⟨e, List.mem_cons_self, i, intSched, hFirst,
          serveAll_intSched⟩
      · rcases ih hOther with ⟨d, hd, j, asked, hServed, hAsked⟩
        exact ⟨d, List.mem_cons_of_mem _ hd, j, asked, hServed,
          hAsked⟩

/-
  An elevator that still moves after a round has not come to
  the next floor yet, or an interrupt is asked for that is
  not too early for it.
-/
theorem moving_of_mem_serveAll
    {e' : ElevatorInfo}
    (hMem : e' ∈ (serveAll now l i intSched).elevators)
    (hMoving : e'.inMotion = true) :
    (e' ∈ l ∧ now < e'.willArrive) ∨
      ((serveAll now l i intSched).intSched = true ∧
        e'.willArrive ≤ now + DelayPerFloor) := by
  rcases mem_serveAll hMem with
    ⟨e, he, j, asked, hServed, hAsked⟩
  rcases e.serve_cases now j asked with
    ⟨hEarly, hEq⟩ | ⟨_, _, _, hEq⟩ | ⟨_, hDue, _, hEq⟩
  · rw [hEq, List.mem_singleton] at hServed
    subst hServed
    exact Or.inl ⟨he, hEarly hMoving⟩
  · rw [hEq, List.mem_singleton] at hServed
    subst hServed
    cases hMoving
  · rw [hEq] at hServed hAsked
    refine Or.inr ⟨hAsked rfl, ?_⟩
    rw [List.mem_singleton] at hServed
    subst hServed
    simp only [DelayPerFloor]
    split
    · omega
    · omega

/- The handler posts events as a handler does. -/
theorem posted_of_mem_serveAll
    {audience : Audience}
    {event : PendingElevatorEvent}
    {inHandler : Bool}
    (hMem :
      .posted audience event inHandler ∈
        (serveAll now l i intSched).trace) :
    inHandler = true := by
  induction l generalizing i intSched with
  | nil => cases hMem
  | cons e l ih =>
      rcases List.mem_append.mp hMem with hFirst | hOther
      · rcases e.serve_cases now i intSched with
          ⟨_, hEq⟩ | ⟨_, _, _, hEq⟩ | ⟨_, _, _, hEq⟩
        · rw [hEq] at hFirst
          cases hFirst
        · simp only [hEq, List.mem_cons, reduceCtorEq,
            false_or, ElevatorTrace.posted.injEq,
            List.not_mem_nil, or_false] at hFirst
          exact hFirst.2.2
        · simp only [hEq, List.mem_singleton,
            reduceCtorEq] at hFirst
      · exact ih hOther

end ElevatorInfo

end Nachos

------------------------------------
-- Between Calls
------------------------------------

namespace Nachos

namespace ElevatorSim

/- An interrupt of the bank comes at a time or later. -/
def Awaits
    (i : Interrupt ElevatorHandler)
    (when : Int) : Prop :=
  ∃ p ∈ i.pending,
    p.handler = .elevatorDone ∧
    p.type = .elevator ∧
    when ≤ p.when

/- Something happened that was not about the elevators. -/
structure Passed
    (s t : ElevatorSim) : Prop where
  rest_eq : t.rest = s.rest
  clock : now s ≤ now t
  keeps :
    ∀ p ∈ s.interrupt.pending, p.handler = .elevatorDone →
      p ∈ t.interrupt.pending

/-
  The handler of the bank was called, perhaps for an
  interrupt that was due.
-/
structure Handled
    (s t : ElevatorSim) : Prop where
  rest_eq : t.rest = s.rest.handled (now s)
  now_eq : now t = now s
  keeps :
    ∀ p ∈ s.interrupt.pending, now s < p.when →
      p ∈ t.interrupt.pending
  asked :
    (s.rest.round (now s)).intSched = true →
      Awaits t.interrupt (now s + DelayPerFloor)

variable {s t : ElevatorSim}
variable
  {others : Nat → Interrupt ElevatorHandler → List OtherCall}
variable {mayHandle : ElevatorBank → Int → Bool}

theorem Awaits.of_keeps
    {i j : Interrupt ElevatorHandler}
    {when : Int}
    (hAwaits : Awaits i when)
    (hKeeps :
      ∀ p ∈ i.pending, p.handler = .elevatorDone →
        when ≤ p.when → p ∈ j.pending) :
    Awaits j when := by
  rcases hAwaits with ⟨p, hp, hDone, hType, hLater⟩
  exact ⟨p, hKeeps p hp hDone hLater, hDone, hType, hLater⟩

/- An interrupt is added for the time that is asked for. -/
theorem scheduleDone_spec
    {fromNow : Int}
    (hRun : scheduleDone s fromNow = some t) :
    t.rest = s.rest ∧ now t = now s ∧
    (∀ p ∈ s.interrupt.pending, p ∈ t.interrupt.pending) ∧
    Awaits t.interrupt (now s + fromNow) := by
  rcases Option.bind_eq_some_iff.mp hRun with
    ⟨i, hSchedule, hEq⟩
  cases hEq
  rcases Interrupt.schedule_cases hSchedule with
    ⟨_, toOccur, hDone, hWhen, hType, _, rfl⟩
  refine ⟨rfl, rfl, ?_, ?_⟩
  · intro p hp
    exact PriorityList.mem_insert.mpr (Or.inr hp)
  · exact ⟨toOccur, PriorityList.mem_insert.mpr (Or.inl rfl),
      hDone, hType, le_of_eq hWhen.symm⟩

/- Other devices add interrupts of their own. -/
theorem passed_of_schedule
    {handler : ElevatorHandler}
    {fromNow : Int}
    {type : IntType}
    {i : Interrupt ElevatorHandler}
    (hRun :
      s.interrupt.schedule handler fromNow type = some i) :
    Passed s ⟨i, s.rest⟩ := by
  rcases Interrupt.schedule_cases hRun with
    ⟨_, toOccur, _, _, _, _, rfl⟩
  refine ⟨rfl, le_rfl, ?_⟩
  intro p hp _
  exact PriorityList.mem_insert.mpr (Or.inr hp)

theorem Passed.trans
    {u : ElevatorSim}
    (hFirst : Passed s t)
    (hNext : Passed t u) :
    Passed s u where
  rest_eq := hNext.rest_eq.trans hFirst.rest_eq
  clock := hFirst.clock.trans hNext.clock
  keeps := fun p hp hDone =>
    hNext.keeps p (hFirst.keeps p hp hDone) hDone

/- The calls of the handler, one after the other. -/
theorem handled_of_calls
    (hRun :
      (s.rest.handleInterrupt (now s)).foldlM
        (Sim.perform (guardedDevice others mayHandle)) s =
          some t) :
    Handled s t ∧ mayHandle s.rest (now s) = true := by
  unfold ElevatorBank.handleInterrupt at hRun
  rw [List.foldlM_cons] at hRun
  rcases Option.bind_eq_some_iff.mp hRun with
    ⟨u, hHandle, hRun⟩
  rcases Option.bind_eq_some_iff.mp hHandle with
    ⟨bank, hExec, hEq⟩
  cases hEq
  dsimp only [guardedDevice] at hExec
  split at hExec
  · rename_i hMay
    cases hExec
    refine ⟨?_, hMay⟩
    split at hRun
    · rw [List.foldlM_cons] at hRun
      rcases Option.bind_eq_some_iff.mp hRun with
        ⟨v, hSchedule, hEq⟩
      cases hEq
      rcases scheduleDone_spec
        (s := setBank s (s.rest.handled (now s)))
        hSchedule with
        ⟨hRest, hNow, hKeeps, hAsked⟩
      exact ⟨hRest, hNow, fun p hp _ => hKeeps p hp,
        fun _ => hAsked⟩
    · rename_i hNot
      cases hRun
      exact ⟨rfl, rfl, fun _ hp _ => hp,
        fun hAsked => absurd hAsked hNot⟩
  · cases hExec

/- A handler of another device. -/
theorem passed_of_otherCalls
    {calls : List OtherCall}
    (hRun :
      (calls.map OtherCall.handlerCall).foldlM
        (Sim.perform (guardedDevice others mayHandle)) s =
          some t) :
    Passed s t := by
  rw [List.foldlM_map] at hRun
  refine Transition.foldlM_invariant (P := Passed s) ?_ hRun
    ⟨rfl, le_rfl, fun _ hp _ => hp⟩
  intro u c v hPassed hCall
  apply hPassed.trans
  cases c with
  | schedule number fromNow type =>
      rcases Option.bind_eq_some_iff.mp hCall with
        ⟨i, hSchedule, hEq⟩
      cases hEq
      exact passed_of_schedule hSchedule
  | yieldOnReturn =>
      rcases Option.bind_eq_some_iff.mp hCall with
        ⟨i, hYield, hEq⟩
      cases hEq
      rw [(Interrupt.setYieldOnReturn_cases hYield).2]
      exact ⟨rfl, le_rfl, fun _ hp _ => hp⟩

/- All that a due interrupt can do when it fires. -/
theorem handled_or_passed_of_fire
    {toOccur : PendingInterrupt ElevatorHandler}
    {pending : List (PendingInterrupt ElevatorHandler)}
    (hPending : s.interrupt.pending = toOccur :: pending)
    (hDue : toOccur.when ≤ now s)
    (hRun :
      (s.setPending pending).fire
        (guardedDevice others mayHandle) toOccur = some t) :
    (Handled s t ∧ mayHandle s.rest (now s) = true) ∨
      Passed s t := by
  rcases Option.bind_eq_some_iff.mp hRun with
    ⟨u, hCalls, hEq⟩
  cases hEq
  cases hHandler : toOccur.handler with
  | elevatorDone =>
      rw [hHandler] at hCalls
      rcases handled_of_calls hCalls with ⟨hHandled, hMay⟩
      refine Or.inl ⟨⟨hHandled.rest_eq, hHandled.now_eq, ?_,
        hHandled.asked⟩, hMay⟩
      intro p hp hLater
      apply hHandled.keeps p _ hLater
      rw [hPending] at hp
      rcases List.mem_cons.mp hp with rfl | hp
      · exact absurd hDue (not_le.mpr hLater)
      · exact hp
  | other number =>
      rw [hHandler] at hCalls
      have hPassed := passed_of_otherCalls hCalls
      refine Or.inr ⟨hPassed.rest_eq, hPassed.clock, ?_⟩
      intro p hp hDone
      apply hPassed.keeps p _ hDone
      rw [hPending] at hp
      rcases List.mem_cons.mp hp with rfl | hp
      · rw [hHandler] at hDone
        cases hDone
      · exact hp

/-
  The invariant rule for banks of elevators: a property holds
  in every run if the calls, the handler of the bank and
  everything else keep it.
-/
theorem guarded_invariant
    {mayCall : ElevatorBank → ElevatorCall → Prop}
    {P : ElevatorSim → Prop}
    (hInit :
      ∀ numElevators numFloors,
        P ⟨.create, .create numElevators numFloors⟩)
    (hCall :
      ∀ s c t, P s → mayCall s.rest c → Effect s c t → P t)
    (hHandled :
      ∀ s t, P s → mayHandle s.rest (now s) = true →
        Handled s t → P t)
    (hPassed : ∀ s t, P s → Passed s t → P t)
    (hReach :
      (guarded others mayCall mayHandle).Reachable s) :
    P s := by
  have hSteady :
      Sim.Steady (guardedDevice others mayHandle) P := by
    constructor
    · intro s _ _ _ _ hs
      exact hPassed s _ hs ⟨rfl, le_rfl, fun _ hp _ => hp⟩
    · intro s hs
      rcases s.interrupt.advance_eq with ⟨stats, hLater, hEq⟩
      rw [hEq]
      exact hPassed s _ hs
        ⟨rfl, le_of_lt hLater, fun _ hp _ => hp⟩
    · intro s _ hs hLater
      exact hPassed s _ hs ⟨rfl, hLater, fun _ hp _ => hp⟩
    · intro s toOccur pending hs hPending
      refine hPassed s _ hs ⟨rfl, le_rfl, ?_⟩
      intro p hp _
      rw [hPending] at hp
      exact PriorityList.mem_insert.mpr (List.mem_cons.mp hp)
    · intro s toOccur pending t hs hPending hDue hRun
      rcases handled_or_passed_of_fire hPending hDue hRun with
        ⟨hDone, hMay⟩ | hOther
      · exact hHandled s t hs hMay hDone
      · exact hPassed s t hs hOther
  refine Transition.System.Reachable.invariant
    (P := P) ?_ ?_ hReach
  · rintro ⟨i, bank⟩ ⟨hi, numElevators, numFloors, hBank⟩
    subst hi
    subst hBank
    exact hInit numElevators numFloors
  · intro s a t hs hAllowed hRun
    cases a with
    | call c => exact hCall s c t hs hAllowed (effect_of_call hRun)
    | handleInterrupt =>
        rcases handled_of_calls hRun with ⟨hDone, hMay⟩
        exact hHandled s t hs hMay hDone
    | machine r =>
        refine hSteady.request ?_ ?_ hs hRun
        · intro handler fromNow type i _ hSchedule
          exact hPassed s _ hs (passed_of_schedule hSchedule)
        · rintro op rest rfl _
          exact absurd hAllowed id

/- The same for runs in which the handler may be called. -/
theorem invariant
    {mayCall : ElevatorBank → ElevatorCall → Prop}
    {P : ElevatorSim → Prop}
    (hInit :
      ∀ numElevators numFloors,
        P ⟨.create, .create numElevators numFloors⟩)
    (hCall :
      ∀ s c t, P s → mayCall s.rest c → Effect s c t → P t)
    (hHandled : ∀ s t, P s → Handled s t → P t)
    (hPassed : ∀ s t, P s → Passed s t → P t)
    (hReach : (system others mayCall).Reachable s) :
    P s := by
  rw [← guarded_true] at hReach
  exact guarded_invariant hInit hCall
    (fun s t hs _ => hHandled s t hs) hPassed hReach

end ElevatorSim

end Nachos

------------------------------------
-- Moving Elevators Are Not Forgotten
------------------------------------

namespace Nachos

/-
  An event that was posted outside of a handler has not been
  followed by a call of the handler.
-/
def Unanswered
    (trace : List ElevatorTrace) : Prop :=
  ∃ earlier audience event later,
    trace =
      earlier ++ .posted audience event false :: later ∧
    ∀ now, .handled now ∉ later

/- Where an unanswered event may stand. -/
theorem Unanswered.of_append
    {l m : List ElevatorTrace}
    (hTrace : Unanswered (l ++ m)) :
    (∃ audience event, .posted audience event false ∈ m) ∨
      (Unanswered l ∧ ∀ now, .handled now ∉ m) := by
  rcases hTrace with
    ⟨earlier, audience, event, later, hEq, hLater⟩
  rcases List.append_eq_append_iff.mp hEq with
    ⟨between, _, hm⟩ | ⟨between, hl, hEnd⟩
  · refine Or.inl ⟨audience, event, ?_⟩
    rw [hm]
    exact List.mem_append_right _ List.mem_cons_self
  · cases between with
    | nil =>
        refine Or.inl ⟨audience, event, ?_⟩
        rw [List.nil_append] at hEnd
        rw [← hEnd]
        exact List.mem_cons_self
    | cons x between =>
        rw [List.cons_append, List.cons.injEq] at hEnd
        rcases hEnd with ⟨rfl, rfl⟩
        refine Or.inr
          ⟨⟨earlier, audience, event, between, hl, ?_⟩, ?_⟩
        · intro now hMem
          exact hLater now (List.mem_append_left _ hMem)
        · intro now hMem
          exact hLater now (List.mem_append_right _ hMem)

namespace ElevatorSim

/-
  Every moving elevator has an interrupt that comes when it
  arrives or later, and events are picked up.
-/
structure Served
    (s : ElevatorSim) : Prop where
  moving :
    ∀ e ∈ s.rest.elevators, e.inMotion = true →
      Awaits s.interrupt e.willArrive
  posted :
    Unanswered s.rest.trace →
      ∃ when, Awaits s.interrupt when

variable {s t : ElevatorSim}

theorem postEvent_spec
    {audience : Audience}
    {event : PendingElevatorEvent}
    (hRun : postEvent s audience event = some t) :
    t.rest = s.rest.appendEvent audience event false ∧
    now t = now s ∧
    (∀ p ∈ s.interrupt.pending, p ∈ t.interrupt.pending) ∧
    Awaits t.interrupt (now s + 1) :=
  scheduleDone_spec hRun

/- A step that loses no interrupt. -/
theorem Served.next
    (hServed : Served s)
    (hKeeps :
      ∀ p ∈ s.interrupt.pending, p ∈ t.interrupt.pending)
    (hMoving :
      ∀ e ∈ t.rest.elevators, e.inMotion = true →
        Awaits t.interrupt e.willArrive ∨
          ∃ d ∈ s.rest.elevators, d.inMotion = true ∧
            d.willArrive = e.willArrive)
    (hPosted :
      Unanswered t.rest.trace →
        (∃ when, Awaits t.interrupt when) ∨
          Unanswered s.rest.trace) :
    Served t := by
  have hAwaits : ∀ {when}, Awaits s.interrupt when →
      Awaits t.interrupt when := by
    intro when hOld
    exact hOld.of_keeps fun p hp _ _ => hKeeps p hp
  constructor
  · intro e he hMove
    rcases hMoving e he hMove with hNew | ⟨d, hd, hOld, hEq⟩
    · exact hNew
    · rw [← hEq]
      exact hAwaits (hServed.moving d hd hOld)
  · intro hTrace
    rcases hPosted hTrace with hNew | hOld
    · exact hNew
    · rcases hServed.posted hOld with ⟨when, hWhen⟩
      exact ⟨when, hAwaits hWhen⟩

/- A call that changes one elevator, which moves as before. -/
theorem moving_of_setInfo
    {k : Int}
    {e d e' : ElevatorInfo}
    (hInfo : s.rest.info k = some e)
    (hMem : e' ∈ (s.rest.setInfo k d).elevators)
    (hMotion : d.inMotion = e.inMotion)
    (hArrive : d.willArrive = e.willArrive)
    (hMoving : e'.inMotion = true) :
    ∃ d ∈ s.rest.elevators, d.inMotion = true ∧
      d.willArrive = e'.willArrive := by
  rcases List.mem_or_eq_of_mem_set hMem with hOld | rfl
  · exact ⟨e', hOld, hMoving, rfl⟩
  · exact ⟨e, ElevatorBank.mem_of_info hInfo,
      hMotion.symm.trans hMoving, hArrive.symm⟩

/- Other entries of the trace post nothing. -/
theorem unanswered_of_note
    {trace : List ElevatorTrace}
    {entry : ElevatorTrace}
    (hEntry :
      ∀ audience event, entry ≠ .posted audience event false)
    (hTrace : Unanswered (trace ++ [entry])) :
    Unanswered trace := by
  rcases hTrace.of_append with
    ⟨audience, event, hMem⟩ | ⟨hOld, _⟩
  · exact absurd (List.mem_singleton.mp hMem).symm
      (hEntry audience event)
  · exact hOld

theorem Served.of_effect
    {c : ElevatorCall}
    (hServed : Served s)
    (hEffect : Effect s c t) :
    Served t := by
  cases hEffect with
  | opened hInfo _ _ hPost =>
      rcases postEvent_spec hPost with
        ⟨hRest, _, hKeeps, hAwaits⟩
      refine hServed.next hKeeps ?_ fun _ => Or.inl ⟨_, hAwaits⟩
      intro e' he' hMoving
      rw [hRest, ElevatorBank.appendEvent_elevators] at he'
      exact Or.inr
        (moving_of_setInfo hInfo he' rfl rfl hMoving)
  | closed hInfo _ =>
      refine hServed.next (fun _ hp => hp) ?_ Or.inr
      intro e' he' hMoving
      exact Or.inr
        (moving_of_setInfo hInfo he' rfl rfl hMoving)
  | started hInfo _ _ _ _ _ hSchedule =>
      rcases scheduleDone_spec hSchedule with
        ⟨hRest, _, hKeeps, hAwaits⟩
      refine hServed.next hKeeps ?_ fun _ => Or.inl ⟨_, hAwaits⟩
      intro e' he' hMoving
      rw [hRest] at he'
      rcases List.mem_or_eq_of_mem_set he' with hOld | rfl
      · exact Or.inr ⟨e', hOld, hMoving, rfl⟩
      · exact Or.inl hAwaits
  | retargeted hInfo _ _ _ _ =>
      refine hServed.next (fun _ hp => hp) ?_ ?_
      · intro e' he' hMoving
        exact Or.inr
          (moving_of_setInfo hInfo he' rfl rfl hMoving)
      · intro hTrace
        exact Or.inr (unanswered_of_note
          (fun _ _ => ElevatorTrace.noConfusion) hTrace)
  | touched hInfo hSame =>
      refine hServed.next (fun _ hp => hp) ?_ Or.inr
      intro e' he' hMoving
      exact Or.inr (moving_of_setInfo hInfo he'
        hSame.inMotion_eq hSame.willArrive_eq hMoving)
  | pressed _ hPost =>
      rcases postEvent_spec hPost with
        ⟨hRest, _, hKeeps, hAwaits⟩
      refine hServed.next hKeeps ?_ fun _ => Or.inl ⟨_, hAwaits⟩
      intro e' he' hMoving
      rw [hRest, ElevatorBank.appendEvent_elevators] at he'
      exact Or.inr ⟨e', he', hMoving, rfl⟩
  | retrieved hEvents =>
      refine hServed.next (fun _ hp => hp) ?_ ?_
      · intro e' he' hMoving
        simp only [setBank, ElevatorBank.note,
          ElevatorBank.setEvents_elevators] at he'
        exact Or.inr ⟨e', he', hMoving, rfl⟩
      · intro hTrace
        simp only [setBank, ElevatorBank.note,
          ElevatorBank.setEvents_trace] at hTrace
        exact Or.inr (unanswered_of_note
          (fun _ _ => ElevatorTrace.noConfusion) hTrace)
  | noEvent _ => exact hServed

/-
  What a call of the handler leaves behind.  The interrupt
  that fired was due, and so it was for no elevator that is
  still on its way to the next floor.
-/
theorem Served.of_handled
    (hServed : Served s)
    (hHandled : Handled s t) :
    Served t := by
  constructor
  · intro e he hMoving
    rw [hHandled.rest_eq] at he
    rcases ElevatorInfo.moving_of_mem_serveAll he hMoving with
      ⟨hOld, hEarly⟩ | ⟨hAsked, hSoon⟩
    · apply (hServed.moving e hOld hMoving).of_keeps
      intro p hp _ hLater
      exact hHandled.keeps p hp (lt_of_lt_of_le hEarly hLater)
    · rcases hHandled.asked hAsked with
        ⟨p, hp, hDone, hType, hLater⟩
      exact ⟨p, hp, hDone, hType, hSoon.trans hLater⟩
  · intro hTrace
    rw [hHandled.rest_eq] at hTrace
    rcases hTrace.of_append with
      ⟨audience, event, hMem⟩ | ⟨_, hNone⟩
    · rcases List.mem_cons.mp hMem with hEq | hMem
      · cases hEq
      · cases ElevatorInfo.posted_of_mem_serveAll hMem
    · exact absurd List.mem_cons_self (hNone (now s))

theorem Served.of_passed
    (hServed : Served s)
    (hPassed : Passed s t) :
    Served t := by
  have hAwaits : ∀ {when}, Awaits s.interrupt when →
      Awaits t.interrupt when := by
    intro when hOld
    exact hOld.of_keeps fun p hp hDone _ =>
      hPassed.keeps p hp hDone
  constructor
  · rw [hPassed.rest_eq]
    intro e he hMoving
    exact hAwaits (hServed.moving e he hMoving)
  · rw [hPassed.rest_eq]
    intro hTrace
    rcases hServed.posted hTrace with ⟨when, hWhen⟩
    exact ⟨when, hAwaits hWhen⟩

variable
  {others : Nat → Interrupt ElevatorHandler → List OtherCall}

/-
  In every run, for each elevator that moves an interrupt of
  the bank is pending that is due when the elevator arrives
  or later; and one is pending as long as an event that was
  posted outside of a handler has not been picked up.
-/
theorem served_of_reachable
    (hReach :
      (system others fun _ _ => True).Reachable s) :
    (∀ e ∈ s.rest.elevators, e.inMotion = true →
      ∃ p ∈ s.interrupt.pending,
        p.handler = .elevatorDone ∧ p.type = .elevator ∧
        e.willArrive ≤ p.when) ∧
    (Unanswered s.rest.trace →
      ∃ p ∈ s.interrupt.pending,
        p.handler = .elevatorDone ∧
        p.type = .elevator) := by
  have hServed : Served s := by
    refine invariant (P := Served) ?_ ?_ ?_ ?_ hReach
    · intro numElevators numFloors
      constructor
      · intro e he hMoving
        rw [List.eq_of_mem_replicate he] at hMoving
        cases hMoving
      · rintro ⟨earlier, audience, event, later, hEq, _⟩
        exact absurd hEq.symm (List.append_ne_nil_of_right_ne_nil
          _ (List.cons_ne_nil _ _))
    · intro s c t hServed _ hEffect
      exact hServed.of_effect hEffect
    · intro s t hServed hHandled
      exact hServed.of_handled hHandled
    · intro s t hServed hPassed
      exact hServed.of_passed hPassed
  refine ⟨hServed.moving, ?_⟩
  intro hTrace
  rcases hServed.posted hTrace with
    ⟨_, p, hp, hDone, hType, _⟩
  exact ⟨p, hp, hDone, hType⟩

/-
  Of two elevators, one has arrived and the other has passed
  a floor; then a button is pressed.
-/
theorem served_after_one_floor :
    ∃ s, (system (fun _ _ => []) fun _ _ => True).Reachable
        s ∧
      (∃ e ∈ s.rest.elevators, e.inMotion = true ∧
        ∃ p ∈ s.interrupt.pending,
          p.handler = .elevatorDone ∧ p.type = .elevator ∧
          e.willArrive ≤ p.when) ∧
      ∃ p ∈ s.interrupt.pending,
        p.handler = .elevatorDone ∧ p.type = .elevator := by
  have hRun : ((system (fun _ _ => []) fun _ _ => True).attempt
      ⟨.create, .create 2 3⟩
      [.call (.moveTo 2 0), .call (.moveTo 1 1),
        .machine .idle, .call (.pressButton 1 .up)]).any
      (fun s =>
        s.rest.elevators.map (fun e =>
          (e.inMotion, e.lastFloor)) = [(true, 1), (false, 1)] ∧
        s.rest.trace.getLast? = some (.posted .controllers
          ⟨.upButtonPressed, 1, 0⟩ false)) = true := by
    decide +kernel
  rcases (Option.any_eq_true _ _).mp hRun with
    ⟨s, hAttempt, hState⟩
  rw [decide_eq_true_eq] at hState
  rcases hState with ⟨hElevators, hTrace⟩
  have hStart : (system (fun _ _ => []) fun _ _ =>
      True).Reachable ⟨.create, .create 2 3⟩ :=
    .of_init ⟨rfl, 2, 3, rfl⟩
  have hReach := hStart.of_attempt hAttempt
  rcases served_of_reachable hReach with ⟨hMoving, hPosted⟩
  have hMem : (true, (1 : Int)) ∈
      s.rest.elevators.map fun e =>
        (e.inMotion, e.lastFloor) := by
    rw [hElevators]
    exact List.mem_cons_self
  rcases List.mem_map.mp hMem with ⟨e, he, hEq⟩
  have hMove : e.inMotion = true := congrArg Prod.fst hEq
  refine ⟨s, hReach, ⟨e, he, hMove, hMoving e he hMove⟩,
    hPosted ?_⟩
  rcases List.getLast?_eq_some_iff.mp hTrace with
    ⟨earlier, hEarlier⟩
  exact ⟨earlier, _, _, [], hEarlier, fun _ => List.not_mem_nil⟩

end ElevatorSim

end Nachos

------------------------------------
-- Elevators Stay in the Building
------------------------------------

namespace Nachos

/-
  An elevator in a building with some floors.  One that moves
  has its doors closed, and it is not on its way back to the
  ground floor before it has left it.
-/
structure ElevatorInfo.Sound
    (numFloors : Int)
    (e : ElevatorInfo) : Prop where
  above : 0 ≤ e.lastFloor
  below : e.lastFloor < numFloors
  closed : e.inMotion = true → e.doorsOpen = false
  target :
    e.inMotion = true →
      0 ≤ e.goingTo ∧ e.goingTo < numFloors ∧
        (e.lastFloor = 0 → e.goingTo ≠ 0)

namespace ElevatorInfo

variable {numFloors : Int}
variable {e e' : ElevatorInfo}

/- The next floor is in the building. -/
theorem Sound.nextFloor
    (hSound : e.Sound numFloors)
    (hMoving : e.inMotion = true) :
    0 ≤ e.nextFloor ∧ e.nextFloor < numFloors := by
  rcases hSound with ⟨hAbove, hBelow, _, hTarget⟩
  rcases hTarget hMoving with ⟨hFirst, hLast, hLeft⟩
  unfold ElevatorInfo.nextFloor
  split
  · omega
  · -- at the ground floor it would have to go there
    have hNot : e.lastFloor ≠ 0 := by
      intro hGround
      have := hLeft hGround
      omega
    omega

theorem Sound.of_mem_serve
    (hSound : e.Sound numFloors)
    {now : Int}
    {i : Nat}
    {intSched : Bool}
    (hMem : e' ∈ (e.serve now i intSched).elevators) :
    e'.Sound numFloors := by
  rcases e.serve_cases now i intSched with
    ⟨_, hEq⟩ | ⟨hMoving, _, _, hEq⟩ | ⟨hMoving, _, hOn, hEq⟩
  · rw [hEq, List.mem_singleton] at hMem
    rw [hMem]
    exact hSound
  · rw [hEq, List.mem_singleton] at hMem
    rw [hMem]
    have hNext := hSound.nextFloor hMoving
    exact ⟨hNext.1, hNext.2, fun h => Bool.noConfusion h,
      fun h => Bool.noConfusion h⟩
  · rw [hEq, List.mem_singleton] at hMem
    rw [hMem]
    have hNext := hSound.nextFloor hMoving
    have hTarget := hSound.target hMoving
    refine ⟨hNext.1, hNext.2, hSound.closed, ?_⟩
    intro _
    refine ⟨hTarget.1, hTarget.2.1, ?_⟩
    intro hGround hGoing
    exact hOn (hGround.trans hGoing.symm)

end ElevatorInfo

/-
  The call does not send an elevator back to the ground floor
  that has just started from there.
-/
def ElevatorBank.LeavesGround
    (bank : ElevatorBank) :
    ElevatorCall → Prop
| .moveTo floor elevator =>
    ∀ e ∈ bank.info elevator,
      e.inMotion = true → e.lastFloor = 0 → floor ≠ 0
| _ => True

instance
    (bank : ElevatorBank)
    (c : ElevatorCall) :
    Decidable (bank.LeavesGround c) :=
  match c with
  | .moveTo floor elevator =>
      inferInstanceAs (Decidable (∀ e ∈ bank.info elevator,
        e.inMotion = true → e.lastFloor = 0 → floor ≠ 0))
  | .openDoors _ | .closeDoors _ | .markDirection _ _
  | .pressButton _ _ | .enterElevator _ _ _ | .pressFloor _ _
  | .exitElevator _ _ _ | .getNextEvent _ =>
      .isTrue trivial

namespace ElevatorSim

variable {s t : ElevatorSim}

/- All elevators are sound. -/
def AllSound
    (s : ElevatorSim) : Prop :=
  ∀ e ∈ s.rest.elevators, e.Sound s.rest.numFloors

/- No call changes the building. -/
theorem numFloors_of_effect
    {c : ElevatorCall}
    (hEffect : Effect s c t) :
    t.rest.numFloors = s.rest.numFloors := by
  cases hEffect with
  | opened _ _ _ hPost =>
      rw [(postEvent_spec hPost).1,
        ElevatorBank.appendEvent_numFloors]
      rfl
  | closed _ _ => rfl
  | started _ _ _ _ _ _ hSchedule =>
      rw [(scheduleDone_spec hSchedule).1]
      rfl
  | retargeted _ _ _ _ _ => rfl
  | touched _ _ => rfl
  | pressed _ hPost =>
      rw [(postEvent_spec hPost).1,
        ElevatorBank.appendEvent_numFloors]
  | retrieved _ => exact ElevatorBank.setEvents_numFloors _ _ _
  | noEvent _ => rfl

theorem AllSound.of_effect
    {c : ElevatorCall}
    (hSound : AllSound s)
    (hLeaves : s.rest.LeavesGround c)
    (hEffect : Effect s c t) :
    AllSound t := by
  -- a changed elevator that is sound is all it takes
  have hSet : ∀ {k : Int} {d : ElevatorInfo},
      d.Sound s.rest.numFloors →
      ∀ e ∈ (s.rest.setInfo k d).elevators,
        e.Sound s.rest.numFloors := by
    intro k d hd e he
    rcases List.mem_or_eq_of_mem_set he with hOld | rfl
    · exact hSound e hOld
    · exact hd
  have hInfoSound : ∀ {k : Int} {e : ElevatorInfo},
      s.rest.info k = some e → e.Sound s.rest.numFloors :=
    fun hInfo => hSound _ (ElevatorBank.mem_of_info hInfo)
  unfold AllSound
  rw [numFloors_of_effect hEffect]
  cases hEffect with
  | opened hInfo _ hStill hPost =>
      rw [(postEvent_spec hPost).1,
        ElevatorBank.appendEvent_elevators]
      have he := hInfoSound hInfo
      refine hSet ⟨he.above, he.below, ?_, he.target⟩
      intro hMoving
      rw [hStill] at hMoving
      cases hMoving
  | closed hInfo _ =>
      have he := hInfoSound hInfo
      exact hSet ⟨he.above, he.below, fun _ => rfl, he.target⟩
  | started hInfo hFirst hLast hClosed _ hOther hSchedule =>
      rw [(scheduleDone_spec hSchedule).1]
      have he := hInfoSound hInfo
      refine hSet ⟨he.above, he.below, fun _ => hClosed, ?_⟩
      intro _
      refine ⟨hFirst, hLast, ?_⟩
      intro hGround hZero
      exact hOther (hGround.trans hZero.symm)
  | retargeted hInfo hFirst hLast hClosed hMoving =>
      have he := hInfoSound hInfo
      refine hSet ⟨he.above, he.below, fun _ => hClosed, ?_⟩
      have hLeft := hLeaves _ hInfo hMoving
      exact fun _ => ⟨hFirst, hLast, hLeft⟩
  | touched hInfo hSame =>
      have he := hInfoSound hInfo
      apply hSet
      constructor
      · rw [hSame.lastFloor_eq]
        exact he.above
      · rw [hSame.lastFloor_eq]
        exact he.below
      · rw [hSame.inMotion_eq, hSame.doorsOpen_eq]
        exact he.closed
      · rw [hSame.inMotion_eq, hSame.goingTo_eq,
          hSame.lastFloor_eq]
        exact he.target
  | pressed _ hPost =>
      rw [(postEvent_spec hPost).1,
        ElevatorBank.appendEvent_elevators]
      exact hSound
  | retrieved _ =>
      simp only [setBank, ElevatorBank.note,
        ElevatorBank.setEvents_elevators]
      exact hSound
  | noEvent _ => exact hSound

variable
  {others : Nat → Interrupt ElevatorHandler → List OtherCall}

/-
  In a building with floors, every elevator is always at one
  of them, and its doors are closed while it moves, provided
  that no elevator is sent back to the ground floor between
  its start from there and the next floor.
-/
theorem inBuilding_of_reachable
    (hReach :
      (system others ElevatorBank.LeavesGround).Reachable s)
    (hFloors : 1 ≤ s.rest.numFloors) :
    ∀ e ∈ s.rest.elevators,
      0 ≤ e.lastFloor ∧ e.lastFloor < s.rest.numFloors ∧
      ¬ (e.doorsOpen = true ∧ e.inMotion = true) := by
  have hSound : AllSound s := by
    refine invariant
      (P := fun s => 1 ≤ s.rest.numFloors → AllSound s)
      ?_ ?_ ?_ ?_ hReach hFloors
    · intro numElevators numFloors hFloors e he
      rw [List.eq_of_mem_replicate he]
      exact ⟨le_rfl, hFloors, fun h => Bool.noConfusion h,
        fun h => Bool.noConfusion h⟩
    · intro s c t hSound hLeaves hEffect hFloors
      rw [numFloors_of_effect hEffect] at hFloors
      exact (hSound hFloors).of_effect hLeaves hEffect
    · intro s t hSound hHandled
      unfold AllSound
      rw [hHandled.rest_eq]
      intro hFloors e' he'
      rcases ElevatorInfo.mem_serveAll he' with
        ⟨e, he, j, asked, hServed, _⟩
      exact (hSound hFloors e he).of_mem_serve hServed
    · intro s t hSound hPassed
      unfold AllSound
      rw [hPassed.rest_eq]
      exact hSound
  intro e he
  refine ⟨(hSound e he).above, (hSound e he).below, ?_⟩
  rintro ⟨hOpen, hMoving⟩
  rw [(hSound e he).closed hMoving] at hOpen
  cases hOpen

/- An elevator goes up two floors, and back from the first. -/
theorem inBuilding_after_turning :
    ∃ s, (system (fun _ _ => [])
        ElevatorBank.LeavesGround).Reachable s ∧
      s.rest.numFloors = 3 ∧
      ∃ e ∈ s.rest.elevators,
        e.inMotion = true ∧ e.lastFloor = 1 ∧
        e.goingTo = 0 ∧ e.doorsOpen = false := by
  have hRun : ((system (fun _ _ => [])
      ElevatorBank.LeavesGround).attempt
      ⟨.create, .create 1 3⟩
      [.call (.moveTo 2 0), .machine .idle,
        .call (.moveTo 0 0)]).any
      (fun s =>
        s.rest.numFloors = 3 ∧
        s.rest.elevators.map (fun e =>
          (e.inMotion, e.lastFloor, e.goingTo)) =
            [(true, 1, 0)]) = true := by
    decide +kernel
  rcases (Option.any_eq_true _ _).mp hRun with
    ⟨s, hAttempt, hState⟩
  rw [decide_eq_true_eq] at hState
  rcases hState with ⟨hFloors, hElevators⟩
  have hStart : (system (fun _ _ => [])
      ElevatorBank.LeavesGround).Reachable
        ⟨.create, .create 1 3⟩ :=
    .of_init ⟨rfl, 1, 3, rfl⟩
  have hReach := hStart.of_attempt hAttempt
  have hInside := inBuilding_of_reachable hReach (by omega)
  have hMem : (true, (1 : Int), (0 : Int)) ∈
      s.rest.elevators.map fun e =>
        (e.inMotion, e.lastFloor, e.goingTo) := by
    rw [hElevators]
    exact List.mem_cons_self
  rcases List.mem_map.mp hMem with ⟨e, he, hEq⟩
  have hMove : e.inMotion = true := congrArg Prod.fst hEq
  refine ⟨s, hReach, hFloors, e, he, hMove,
    congrArg (fun p => p.2.1) hEq,
    congrArg (fun p => p.2.2) hEq, ?_⟩
  by_contra hOpen
  exact (hInside e he).2.2
    ⟨(Bool.not_eq_false _).mp hOpen, hMove⟩

/-
  Without the condition an elevator that is sent up and back
  to the ground floor at once ends up below it.
-/
theorem elevator_below_ground :
    ∃ s, (system (fun _ _ => []) fun _ _ => True).Reachable
        s ∧
      s.rest.numFloors = 2 ∧
      ∃ e ∈ s.rest.elevators, e.lastFloor = -1 := by
  have hRun : ((system (fun _ _ => []) fun _ _ => True).attempt
      ⟨.create, .create 1 2⟩
      [.call (.moveTo 1 0), .call (.moveTo 0 0),
        .machine .idle]).any
      (fun s =>
        s.rest.numFloors = 2 ∧
        s.rest.elevators.map (·.lastFloor) = [-1]) =
          true := by
    decide +kernel
  rcases (Option.any_eq_true _ _).mp hRun with
    ⟨s, hAttempt, hState⟩
  rw [decide_eq_true_eq] at hState
  rcases hState with ⟨hFloors, hElevators⟩
  have hStart : (system (fun _ _ => []) fun _ _ =>
      True).Reachable ⟨.create, .create 1 2⟩ :=
    .of_init ⟨rfl, 1, 2, rfl⟩
  have hMem : (-1 : Int) ∈
      s.rest.elevators.map (·.lastFloor) := by
    rw [hElevators]
    exact List.mem_cons_self
  rcases List.mem_map.mp hMem with ⟨e, he, hEq⟩
  exact ⟨s, hStart.of_attempt hAttempt, hFloors, e, he, hEq⟩

end ElevatorSim

end Nachos
