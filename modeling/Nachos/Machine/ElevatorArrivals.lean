import Nachos.Machine.ElevatorHistory

/-
  Every motion of an elevator ends with one event.

  The events that tell that an elevator has arrived balance
  the calls that started it, and each of them carries the
  floor where the elevator is and was sent to last.  Events
  are retrieved in the order in which they were posted.

  Main declarations:
    * `position`
    * `Accounted`
    * `Accounted.turn`
    * `ElevatorSim.events_of_reachable`
    * `ElevatorSim.arrivals_of_reachable`
-/

------------------------------------
-- What the Trace Tells
------------------------------------

namespace Nachos

namespace ElevatorTrace

/- Does the elevator start from rest? -/
def isStart
    (i : Nat) :
    ElevatorTrace → Bool
| .moveTo k _ started _ => k == i && started
| _ => false

/- Is this the event of its arrival? -/
def isArrival
    (i : Nat) :
    ElevatorTrace → Bool
| .posted .controllers ⟨.elevatorArrived, _, k⟩ _ =>
    k == (i : Int)
| _ => false

def stop
    (i : Nat)
    (floor : Int) :
    ElevatorTrace → Int
| .reached k floor' _ => if k = i then floor' else floor
| _ => floor

def aim
    (i : Nat)
    (floor : Int) :
    ElevatorTrace → Int
| .moveTo k floor' _ _ => if k = i then floor' else floor
| _ => floor

/- An event that was posted for an audience. -/
def postedTo
    (audience : Audience) :
    ElevatorTrace → Option PendingElevatorEvent
| .posted a event _ =>
    if a = audience then some event else none
| _ => none

/- An event that an audience has retrieved. -/
def retrievedBy
    (audience : Audience) :
    ElevatorTrace → Option PendingElevatorEvent
| .retrieved a event =>
    if a = audience then some event else none
| _ => none

end ElevatorTrace

/- The floor that an elevator reached last. -/
def position
    (i : Nat)
    (trace : List ElevatorTrace) :
    Int :=
  trace.foldl (ElevatorTrace.stop i) 0

/- The floor that it was sent to last. -/
def lastRequest
    (i : Nat)
    (trace : List ElevatorTrace) :
    Int :=
  trace.foldl (ElevatorTrace.aim i) 0

theorem position_concat
    (i : Nat)
    (trace : List ElevatorTrace)
    (entry : ElevatorTrace) :
    position i (trace ++ [entry]) =
      entry.stop i (position i trace) := by
  unfold position
  rw [List.foldl_append, List.foldl_cons, List.foldl_nil]

theorem lastRequest_concat
    (i : Nat)
    (trace : List ElevatorTrace)
    (entry : ElevatorTrace) :
    lastRequest i (trace ++ [entry]) =
      entry.aim i (lastRequest i trace) := by
  unfold lastRequest
  rw [List.foldl_append, List.foldl_cons, List.foldl_nil]

variable (i : Nat)
variable (trace : List ElevatorTrace)

/- Entries about other elevators do not matter. -/
theorem position_filter :
    position i (trace.filter (ElevatorTrace.isAbout i)) =
      position i trace := by
  refine History.foldl_filter_eq ?_ trace 0
  intro floor entry hOther
  cases entry with
  | reached k floor' now =>
      have hNe : k ≠ i := ne_of_beq_false hOther
      simp only [ElevatorTrace.stop, hNe, if_false]
  | moveTo | posted | retrieved | handled => rfl

theorem lastRequest_filter :
    lastRequest i (trace.filter (ElevatorTrace.isAbout i)) =
      lastRequest i trace := by
  refine History.foldl_filter_eq ?_ trace 0
  intro floor entry hOther
  cases entry with
  | moveTo k floor' started now =>
      have hNe : k ≠ i := ne_of_beq_false hOther
      simp only [ElevatorTrace.aim, hNe, if_false]
  | reached | posted | retrieved | handled => rfl

theorem countP_isStart_filter :
    (trace.filter (ElevatorTrace.isAbout i)).countP
        (ElevatorTrace.isStart i) =
      trace.countP (ElevatorTrace.isStart i) := by
  rw [List.countP_filter]
  apply List.countP_congr
  intro entry _
  cases entry <;>
    simp +contextual [ElevatorTrace.isStart,
      ElevatorTrace.isAbout]

theorem isAbout_of_isArrival
    {entry : ElevatorTrace}
    (hArrival : entry.isArrival i = true) :
    entry.isAbout i = true := by
  unfold ElevatorTrace.isArrival at hArrival
  split at hArrival
  · exact hArrival
  · cases hArrival

theorem countP_isArrival_filter :
    (trace.filter (ElevatorTrace.isAbout i)).countP
        (ElevatorTrace.isArrival i) =
      trace.countP (ElevatorTrace.isArrival i) := by
  rw [List.countP_filter]
  apply List.countP_congr
  intro entry _
  rw [Bool.and_eq_true]
  exact ⟨fun h => h.1, fun h => ⟨h, isAbout_of_isArrival i h⟩⟩

end Nachos

------------------------------------
-- Starts and Arrivals
------------------------------------

namespace Nachos

/-
  An event of arrival that fits what happened before: the
  elevator has been started once more than it has arrived, it
  is at the floor of the event, and it was sent there last.
-/
def Arrives
    (i : Nat)
    (earlier : List ElevatorTrace)
    (floor : Int) : Prop :=
  floor = position i earlier ∧
  floor = lastRequest i earlier ∧
  earlier.countP (ElevatorTrace.isStart i) =
    earlier.countP (ElevatorTrace.isArrival i) + 1

/- The story of an elevator accounts for its state. -/
structure Accounted
    (i : Nat)
    (e : ElevatorInfo)
    (story : List ElevatorTrace) : Prop where
  balance :
    story.countP (ElevatorTrace.isArrival i) +
        (if e.inMotion then 1 else 0) =
      story.countP (ElevatorTrace.isStart i)
  floor : e.lastFloor = position i story
  request : e.goingTo = lastRequest i story
  each :
    History.Each (fun earlier entry =>
      ∀ floor inHandler,
        entry = .posted .controllers
          ⟨.elevatorArrived, floor, i⟩ inHandler →
        Arrives i earlier floor) story

namespace Accounted

variable {i : Nat}
variable {e e' : ElevatorInfo}
variable {story entries : List ElevatorTrace}

theorem create
    (i : Nat) :
    Accounted i .create [] :=
  ⟨rfl, rfl, rfl, History.each_nil⟩

/- Any other entry than an arrival. -/
theorem each_concat
    (hInv : Accounted i e story)
    {entry : ElevatorTrace}
    (hEntry :
      ∀ audience event inHandler,
        entry ≠ .posted audience event inHandler) :
    History.Each (fun earlier entry =>
      ∀ floor inHandler,
        entry = .posted .controllers
          ⟨.elevatorArrived, floor, i⟩ inHandler →
        Arrives i earlier floor) (story ++ [entry]) := by
  refine History.each_concat.mpr ⟨hInv.each, ?_⟩
  intro floor inHandler hEq
  exact absurd hEq (hEntry _ _ _)

theorem started
    (hInv : Accounted i e story)
    (hStill : e.inMotion = false)
    (floor now : Int)
    (hMoving : e'.inMotion = true)
    (hFloor : e'.lastFloor = e.lastFloor)
    (hGoing : e'.goingTo = floor) :
    Accounted i e' (story ++ [.moveTo i floor true now]) := by
  have hBalance := hInv.balance
  rw [hStill] at hBalance
  constructor
  · rw [hMoving, List.countP_append, List.countP_append]
    simp only [List.countP_singleton, ElevatorTrace.isStart,
      ElevatorTrace.isArrival, beq_self_eq_true, Bool.and_true,
      Bool.false_eq_true, if_true, if_false] at hBalance ⊢
    omega
  · rw [position_concat, hFloor]
    exact hInv.floor
  · rw [lastRequest_concat, hGoing]
    simp only [ElevatorTrace.aim, if_true]
  · exact hInv.each_concat
      fun _ _ _ => ElevatorTrace.noConfusion

theorem retargeted
    (hInv : Accounted i e story)
    (floor now : Int) :
    Accounted i { e with goingTo := floor }
      (story ++ [.moveTo i floor false now]) := by
  have hBalance := hInv.balance
  constructor
  · rw [List.countP_append, List.countP_append]
    simp only [List.countP_singleton, ElevatorTrace.isStart,
      ElevatorTrace.isArrival, Bool.and_false,
      Bool.false_eq_true, if_false, Nat.add_zero]
    exact hBalance
  · rw [position_concat]
    exact hInv.floor
  · rw [lastRequest_concat]
    simp only [ElevatorTrace.aim, if_true]
  · exact hInv.each_concat
      fun _ _ _ => ElevatorTrace.noConfusion

theorem reached
    (hInv : Accounted i e story)
    (floor now : Int)
    (hMotion : e'.inMotion = e.inMotion)
    (hFloor : e'.lastFloor = floor)
    (hGoing : e'.goingTo = e.goingTo) :
    Accounted i e' (story ++ [.reached i floor now]) := by
  have hBalance := hInv.balance
  constructor
  · rw [hMotion, List.countP_append, List.countP_append]
    simp only [List.countP_singleton, ElevatorTrace.isStart,
      ElevatorTrace.isArrival, Bool.false_eq_true, if_false,
      Nat.add_zero]
    exact hBalance
  · rw [position_concat, hFloor]
    simp only [ElevatorTrace.stop, if_true]
  · rw [lastRequest_concat, hGoing]
    exact hInv.request
  · exact hInv.each_concat
      fun _ _ _ => ElevatorTrace.noConfusion

/- The event is posted at the floor that was asked for. -/
theorem arrived
    (hInv : Accounted i e story)
    (hMoving : e.inMotion = true)
    (hThere : e.lastFloor = e.goingTo)
    (inHandler : Bool) :
    Accounted i { e with inMotion := false }
      (story ++ [.posted .controllers
        ⟨.elevatorArrived, e.goingTo, i⟩ inHandler]) := by
  have hBalance := hInv.balance
  rw [hMoving] at hBalance
  simp only [if_true] at hBalance
  constructor
  · rw [List.countP_append, List.countP_append]
    simp only [List.countP_singleton, ElevatorTrace.isStart,
      ElevatorTrace.isArrival, beq_self_eq_true,
      Bool.false_eq_true, if_true, if_false, Nat.add_zero]
    exact hBalance
  · rw [position_concat]
    exact hInv.floor
  · rw [lastRequest_concat]
    exact hInv.request
  · refine History.each_concat.mpr ⟨hInv.each, ?_⟩
    intro floor _ hEq
    cases hEq
    exact ⟨hThere.symm.trans hInv.floor, hInv.request,
      hBalance.symm⟩

/- Every turn keeps the account. -/
theorem turn
    {now : Int}
    {asked : Bool}
    (hInv : Accounted i e story)
    (hTurn : ElevatorInfo.Turn i now asked e e' entries) :
    Accounted i e' (story ++ entries) := by
  cases hTurn with
  | kept hMotion hFloor _ hGoing =>
      rw [List.append_nil]
      refine ⟨?_, ?_, ?_, hInv.each⟩
      · rw [hMotion]
        exact hInv.balance
      · rw [hFloor]
        exact hInv.floor
      · rw [hGoing]
        exact hInv.request
  | started floor hStill =>
      exact hInv.started hStill floor now rfl rfl rfl
  | retargeted floor _ => exact hInv.retargeted floor now
  | arrived hMoving _ hNext =>
      have hThere : Accounted i
          { e with lastFloor := e.nextFloor }
          (story ++ [.reached i e.nextFloor now]) :=
        hInv.reached e.nextFloor now rfl rfl rfl
      have hPosted := hThere.arrived hMoving hNext true
      rw [List.append_assoc] at hPosted
      exact hPosted
  | wentOn _ => exact hInv.reached e.nextFloor now rfl rfl rfl

end Accounted

end Nachos

------------------------------------
-- Events in Order
------------------------------------

namespace Nachos

open ElevatorTrace

/-
  The events that an audience has retrieved, followed by those
  that are still listed, are those posted for it.
-/
def ElevatorBank.InOrder
    (bank : ElevatorBank)
    (audience : Audience) : Prop :=
  bank.trace.filterMap (retrievedBy audience) ++
      bank.events audience =
    bank.trace.filterMap (postedTo audience)

/- The handler posts its events for the controllers. -/
theorem postedTo_serveAll
    (now : Int)
    (l : List ElevatorInfo)
    (i : Nat)
    (asked : Bool)
    (audience : Audience) :
    (ElevatorInfo.serveAll now l i asked).trace.filterMap
        (postedTo audience) =
      if audience = .controllers then
        (ElevatorInfo.serveAll now l i asked).events
      else
        [] := by
  induction l generalizing i asked with
  | nil =>
      cases audience <;> rfl
  | cons e l ih =>
      have hFirst :
          (e.serve now i asked).trace.filterMap
              (postedTo audience) =
            if audience = .controllers then
              (e.serve now i asked).events
            else
              [] := by
        rcases e.serve_cases now i asked with
          ⟨_, hEq⟩ | ⟨_, _, _, hEq⟩ | ⟨_, _, _, hEq⟩ <;>
          rw [hEq] <;> cases audience <;> rfl
      show ((e.serve now i asked).trace ++ _).filterMap _ = _
      rw [List.filterMap_append, hFirst, ih]
      cases audience with
      | riders => rfl
      | controllers => rfl

theorem retrievedBy_serveAll
    (now : Int)
    (l : List ElevatorInfo)
    (i : Nat)
    (asked : Bool)
    (audience : Audience) :
    (ElevatorInfo.serveAll now l i asked).trace.filterMap
      (retrievedBy audience) = [] := by
  induction l generalizing i asked with
  | nil => rfl
  | cons e l ih =>
      have hFirst :
          (e.serve now i asked).trace.filterMap
            (retrievedBy audience) = [] := by
        rcases e.serve_cases now i asked with
          ⟨_, hEq⟩ | ⟨_, _, _, hEq⟩ | ⟨_, _, _, hEq⟩ <;>
          rw [hEq] <;> rfl
      show ((e.serve now i asked).trace ++ _).filterMap _ = _
      rw [List.filterMap_append, hFirst, ih]
      rfl

namespace ElevatorBank

variable {bank : ElevatorBank}
variable {audience : Audience}

/- An entry that is not about events. -/
theorem InOrder.note
    (hInv : bank.InOrder audience)
    {entry : ElevatorTrace}
    (hPosted : postedTo audience entry = none)
    (hRetrieved : retrievedBy audience entry = none) :
    (bank.note entry).InOrder audience := by
  have hEvents : (bank.note entry).events audience =
      bank.events audience := by
    cases audience <;> rfl
  unfold InOrder
  rw [hEvents]
  show (bank.trace ++ [entry]).filterMap _ ++ _ =
    (bank.trace ++ [entry]).filterMap _
  rw [List.filterMap_append, List.filterMap_append,
    List.filterMap_cons_none hPosted,
    List.filterMap_cons_none hRetrieved]
  simp only [List.filterMap_nil, List.append_nil]
  exact hInv

/- Events are appended at the end. -/
theorem InOrder.appendEvent
    (hInv : bank.InOrder audience)
    (a : Audience)
    (event : PendingElevatorEvent)
    (inHandler : Bool) :
    (bank.appendEvent a event inHandler).InOrder
      audience := by
  have hInv' : _ ++ _ = _ := hInv
  unfold InOrder
  rw [appendEvent_trace, List.filterMap_append,
    List.filterMap_append]
  by_cases hEq : a = audience
  · subst hEq
    have hEvents : (bank.appendEvent a event inHandler).events
        a = bank.events a ++ [event] := by
      cases a <;> rfl
    rw [hEvents, ← hInv']
    simp [postedTo, retrievedBy]
  · have hEvents : (bank.appendEvent a event inHandler).events
        audience = bank.events audience := by
      cases a <;> cases audience <;>
        first | rfl | exact absurd rfl hEq
    rw [hEvents, ← hInv']
    simp [postedTo, retrievedBy, hEq]

/- Events are taken from the front. -/
theorem InOrder.retrieve
    (hInv : bank.InOrder audience)
    {a : Audience}
    {event : PendingElevatorEvent}
    {events : List PendingElevatorEvent}
    (hEvents : bank.events a = event :: events) :
    ((bank.setEvents events a).note
      (.retrieved a event)).InOrder audience := by
  have hInv' : _ ++ _ = _ := hInv
  unfold InOrder
  show ((bank.setEvents events a).trace ++ _).filterMap _ ++
      _ = ((bank.setEvents events a).trace ++ _).filterMap _
  rw [setEvents_trace, List.filterMap_append,
    List.filterMap_append]
  by_cases hEq : a = audience
  · subst hEq
    have hRest : ((bank.setEvents events a).note
        (.retrieved a event)).events a = events := by
      cases a <;> rfl
    rw [hEvents] at hInv'
    rw [hRest, ← hInv']
    simp [postedTo, retrievedBy]
  · have hRest : ((bank.setEvents events a).note
        (.retrieved a event)).events audience =
          bank.events audience := by
      cases a <;> cases audience <;>
        first | rfl | exact absurd rfl hEq
    rw [hRest, ← hInv']
    simp [postedTo, retrievedBy, hEq]

theorem InOrder.handled
    (hInv : bank.InOrder audience)
    (now : Int) :
    (bank.handled now).InOrder audience := by
  have hInv' : _ ++ _ = _ := hInv
  unfold InOrder
  show (bank.trace ++ .handled now ::
      (bank.round now).trace).filterMap _ ++ _ =
    (bank.trace ++ .handled now ::
      (bank.round now).trace).filterMap _
  rw [List.filterMap_append, List.filterMap_append,
    List.filterMap_cons_none rfl, List.filterMap_cons_none rfl]
  unfold round
  rw [postedTo_serveAll, retrievedBy_serveAll, ← hInv',
    List.append_nil, List.append_assoc]
  congr 1
  cases audience with
  | riders => exact (List.append_nil _).symm
  | controllers => rfl

theorem InOrder.setInfo
    (hInv : bank.InOrder audience)
    (elevator : Int)
    (e : ElevatorInfo) :
    (bank.setInfo elevator e).InOrder audience := by
  have hEvents : (bank.setInfo elevator e).events audience =
      bank.events audience := by
    cases audience <;> rfl
  unfold InOrder
  rw [hEvents]
  exact hInv

end ElevatorBank

namespace ElevatorSim

variable {s t : ElevatorSim}

theorem inOrder_of_effect
    {audience : Audience}
    {c : ElevatorCall}
    (hInv : s.rest.InOrder audience)
    (hEffect : Effect s c t) :
    t.rest.InOrder audience := by
  cases hEffect with
  | opened _ _ _ hPost =>
      rw [(postEvent_spec hPost).1]
      exact (hInv.setInfo _ _).appendEvent _ _ _
  | closed _ _ => exact hInv.setInfo _ _
  | started _ _ _ _ _ _ hSchedule =>
      rw [(scheduleDone_spec hSchedule).1]
      exact (hInv.setInfo _ _).note rfl rfl
  | retargeted _ _ _ _ _ =>
      exact (hInv.setInfo _ _).note rfl rfl
  | touched _ _ => exact hInv.setInfo _ _
  | pressed _ hPost =>
      rw [(postEvent_spec hPost).1]
      exact hInv.appendEvent _ _ _
  | retrieved hEvents => exact hInv.retrieve hEvents
  | noEvent _ => exact hInv

variable
  {others : Nat → Interrupt ElevatorHandler → List OtherCall}
variable {mayCall : ElevatorBank → ElevatorCall → Prop}

/- Each posted event is retrieved once, in order. -/
theorem events_of_reachable
    (hReach : (system others mayCall).Reachable s)
    (audience : Audience) :
    s.rest.InOrder audience := by
  refine invariant (P := fun s => s.rest.InOrder audience)
    ?_ ?_ ?_ ?_ hReach
  · intro numElevators numFloors
    cases audience <;> rfl
  · intro s c t hInv _ hEffect
    exact inOrder_of_effect hInv hEffect
  · intro s t hInv hHandled
    rw [hHandled.rest_eq]
    exact hInv.handled (now s)
  · intro s t hInv hPassed
    rw [hPassed.rest_eq]
    exact hInv

end ElevatorSim

end Nachos

------------------------------------
-- One Event for Each Motion
------------------------------------

namespace Nachos

namespace ElevatorSim

open ElevatorTrace

variable {s : ElevatorSim}
variable
  {others : Nat → Interrupt ElevatorHandler → List OtherCall}

/-
  In every run, for each elevator: the events of its arrival,
  and one more while it moves, are as many as the calls that
  started it from rest; and each of these events carries the
  floor where the elevator is when it is posted, which is the
  floor that it was sent to last, for a motion that had no
  event yet.  The controllers retrieve their events once and
  in the order in which they were posted.
-/
theorem arrivals_of_reachable
    (hReach :
      (system others fun _ _ => True).Reachable s) :
    (∀ i e, s.rest.elevators[i]? = some e →
      s.rest.trace.countP (isArrival i) +
          (if e.inMotion then 1 else 0) =
        s.rest.trace.countP (isStart i) ∧
      e.lastFloor = position i s.rest.trace ∧
      ∀ earlier floor inHandler later,
        s.rest.trace =
          earlier ++ .posted .controllers
            ⟨.elevatorArrived, floor, i⟩ inHandler :: later →
        floor = position i earlier ∧
        floor = lastRequest i earlier ∧
        earlier.countP (isStart i) =
          earlier.countP (isArrival i) + 1) ∧
    s.rest.trace.filterMap (retrievedBy .controllers) ++
        s.rest.controllerEvents =
      s.rest.trace.filterMap (postedTo .controllers) := by
  refine ⟨?_, events_of_reachable hReach .controllers⟩
  intro i e hGet
  rw [← guarded_true] at hReach
  have hInv : Accounted i e (s.rest.story i) := by
    refine story_invariant (P := Accounted) ?_ ?_ hReach hGet
    · exact Accounted.create
    · intro i now asked e e' story entries hInv _ hTurn
      exact hInv.turn hTurn
  refine ⟨?_, ?_, ?_⟩
  · rw [← countP_isArrival_filter, ← countP_isStart_filter]
    exact hInv.balance
  · rw [← position_filter]
    exact hInv.floor
  · intro earlier floor inHandler later hTrace
    have hAbout : isAbout i (.posted .controllers
        ⟨.elevatorArrived, floor, i⟩ inHandler) = true :=
      beq_self_eq_true _
    rw [← position_filter, ← lastRequest_filter,
      ← countP_isArrival_filter, ← countP_isStart_filter]
    exact hInv.each.of_filter earlier _ later hTrace hAbout
      floor inHandler rfl

/- An elevator has arrived, and its event is retrieved. -/
theorem arrivals_after_one_floor :
    ∃ s, (system (fun _ _ => []) fun _ _ => True).Reachable
        s ∧
      s.rest.trace =
        [.moveTo 0 2 true 0, .moveTo 0 1 false 0,
          .handled 100, .reached 0 1 100,
          .posted .controllers ⟨.elevatorArrived, 1, 0⟩ true,
          .retrieved .controllers
            ⟨.elevatorArrived, 1, 0⟩] ∧
      s.rest.controllerEvents = [] := by
  have hRun : ((system (fun _ _ => []) fun _ _ => True).attempt
      ⟨.create, .create 1 3⟩
      [.call (.moveTo 2 0), .call (.moveTo 1 0),
        .machine .idle,
        .call (.getNextEvent .controllers)]).any (fun s =>
          s.rest.trace =
            [.moveTo 0 2 true 0, .moveTo 0 1 false 0,
              .handled 100, .reached 0 1 100,
              .posted .controllers ⟨.elevatorArrived, 1, 0⟩
                true,
              .retrieved .controllers
                ⟨.elevatorArrived, 1, 0⟩]) = true := by
    decide +kernel
  rcases (Option.any_eq_true _ _).mp hRun with
    ⟨s, hAttempt, hTrace⟩
  rw [decide_eq_true_eq] at hTrace
  have hStart : (system (fun _ _ => []) fun _ _ =>
      True).Reachable ⟨.create, .create 1 3⟩ :=
    .of_init ⟨rfl, 1, 3, rfl⟩
  have hReach := hStart.of_attempt hAttempt
  have hOrder := (arrivals_of_reachable hReach).2
  rw [hTrace] at hOrder
  exact ⟨s, hReach, hTrace, List.append_cancel_left hOrder⟩

end ElevatorSim

end Nachos
