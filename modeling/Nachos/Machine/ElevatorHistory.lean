import Nachos.Lib.History
import Nachos.Machine.ElevatorRuns

/-
  The history of a single elevator.

  In every step of a bank each elevator takes a turn: it is
  left alone, starts, gets another floor to go to, arrives or
  goes on.  The turns are what the trace tells about it.

  Main declarations:
    * `ElevatorBank.story`
    * `ElevatorInfo.Turn`
    * `ElevatorSim.turn_of_effect`
    * `ElevatorSim.turn_of_handled`
    * `ElevatorSim.story_invariant`
-/

------------------------------------
-- Turns
------------------------------------

namespace Nachos

/- Is the entry about this elevator? -/
def ElevatorTrace.isAbout
    (i : Nat) :
    ElevatorTrace → Bool
| .moveTo k _ _ _ => k == i
| .reached k _ _ => k == i
| .posted .controllers ⟨.elevatorArrived, _, k⟩ _ =>
    k == (i : Int)
| _ => false

/- What the trace tells about an elevator. -/
def ElevatorBank.story
    (bank : ElevatorBank)
    (i : Nat) :
    List ElevatorTrace :=
  bank.trace.filter (ElevatorTrace.isAbout i)

namespace ElevatorInfo

/- The elevator passes the next floor without arriving. -/
def goesOn
    (e : ElevatorInfo)
    (now : Int) :
    Bool :=
  e.inMotion && decide (e.willArrive ≤ now) &&
    decide (e.nextFloor ≠ e.goingTo)

/-
  What can happen to elevator `i` in one step, and what is
  told about it.  When an elevator goes on, its next time of
  arrival is set only if no other has asked for an interrupt.
-/
inductive Turn
    (i : Nat)
    (now : Int)
    (asked : Bool) :
    ElevatorInfo → ElevatorInfo → List ElevatorTrace → Prop
| kept
    {e e' : ElevatorInfo} :
    e'.inMotion = e.inMotion →
    e'.lastFloor = e.lastFloor →
    e'.willArrive = e.willArrive →
    e'.goingTo = e.goingTo →
    Turn i now asked e e' []
| started
    {e : ElevatorInfo}
    (floor : Int) :
    e.inMotion = false →
    Turn i now asked e
      { e with
        goingTo := floor
        willArrive := now + DelayPerFloor
        inMotion := true }
      [.moveTo i floor true now]
| retargeted
    {e : ElevatorInfo}
    (floor : Int) :
    e.inMotion = true →
    Turn i now asked e { e with goingTo := floor }
      [.moveTo i floor false now]
| arrived
    {e : ElevatorInfo} :
    e.inMotion = true →
    e.willArrive ≤ now →
    e.nextFloor = e.goingTo →
    Turn i now asked e
      { e with
        lastFloor := e.nextFloor
        inMotion := false }
      [.reached i e.nextFloor now,
        .posted .controllers
          ⟨.elevatorArrived, e.goingTo, i⟩ true]
| wentOn
    {e : ElevatorInfo} :
    e.goesOn now = true →
    Turn i now asked e
      { e with
        lastFloor := e.nextFloor
        willArrive :=
          if asked then
            e.willArrive
          else
            e.willArrive + DelayPerFloor }
      [.reached i e.nextFloor now]

/- The handler gives an elevator one turn. -/
theorem turn_of_serve
    (e : ElevatorInfo)
    (now : Int)
    (i : Nat)
    (asked : Bool) :
    ∃ e', (e.serve now i asked).elevators = [e'] ∧
      Turn i now asked e e' (e.serve now i asked).trace := by
  rcases e.serve_cases now i asked with
    ⟨_, hEq⟩ | ⟨hMoving, hDue, hNext, hEq⟩ |
      ⟨hMoving, hDue, hNext, hEq⟩
  · rw [hEq]
    exact ⟨e, rfl, .kept rfl rfl rfl rfl⟩
  · rw [hEq]
    exact ⟨_, rfl, .arrived hMoving hDue hNext⟩
  · rw [hEq]
    refine ⟨_, rfl, .wentOn ?_⟩
    simp only [goesOn, hMoving, hDue, hNext, Bool.and_true,
      decide_true, ne_eq, not_false_eq_true]

end ElevatorInfo

end Nachos

------------------------------------
-- Turns of the Handler
------------------------------------

namespace Nachos

namespace ElevatorInfo

/- The handler tells about the elevator that it serves. -/
theorem filter_serve_self
    (e : ElevatorInfo)
    (now : Int)
    (i : Nat)
    (asked : Bool) :
    (e.serve now i asked).trace.filter
        (ElevatorTrace.isAbout i) =
      (e.serve now i asked).trace := by
  rcases e.serve_cases now i asked with
    ⟨_, hEq⟩ | ⟨_, _, _, hEq⟩ | ⟨_, _, _, hEq⟩
  · rw [hEq]
    rfl
  · simp [hEq, ElevatorTrace.isAbout]
  · simp [hEq, ElevatorTrace.isAbout]

theorem filter_serve_of_ne
    (e : ElevatorInfo)
    (now : Int)
    {i j : Nat}
    (asked : Bool)
    (hNe : i ≠ j) :
    (e.serve now i asked).trace.filter
      (ElevatorTrace.isAbout j) = [] := by
  have hCast : (i : Int) ≠ j := by
    omega
  rcases e.serve_cases now i asked with
    ⟨_, hEq⟩ | ⟨_, _, _, hEq⟩ | ⟨_, _, _, hEq⟩
  · rw [hEq]
    rfl
  · simp [hEq, ElevatorTrace.isAbout, hNe, hCast]
  · simp [hEq, ElevatorTrace.isAbout, hNe]

theorem filter_serveAll_of_lt
    {now : Int}
    {l : List ElevatorInfo}
    {i j : Nat}
    {asked : Bool}
    (hLt : j < i) :
    (serveAll now l i asked).trace.filter
      (ElevatorTrace.isAbout j) = [] := by
  induction l generalizing i asked with
  | nil => rfl
  | cons e l ih =>
      show ((e.serve now i asked).trace ++ _).filter _ = []
      rw [List.filter_append,
        filter_serve_of_ne e now asked (by omega),
        ih (by omega)]
      rfl

/- Only an elevator that goes on asks for an interrupt. -/
theorem intSched_of_serve
    {e : ElevatorInfo}
    {now : Int}
    {i : Nat}
    {asked : Bool}
    (hSched : (e.serve now i asked).intSched = true) :
    asked = true ∨ e.goesOn now = true := by
  rcases e.serve_cases now i asked with
    ⟨_, hEq⟩ | ⟨_, _, _, hEq⟩ | ⟨hMoving, hDue, hNext, _⟩
  · rw [hEq] at hSched
    exact Or.inl hSched
  · rw [hEq] at hSched
    exact Or.inl hSched
  · apply Or.inr
    simp only [goesOn, hMoving, hDue, hNext, Bool.and_true,
      decide_true, ne_eq, not_false_eq_true]

/-
  The turn of elevator `k` in a round.  If some other has
  asked for an interrupt before it, that one goes on.
-/
theorem serveAll_turn
    {now : Int}
    {l : List ElevatorInfo}
    {i k : Nat}
    {intSched : Bool}
    {e' : ElevatorInfo}
    (hGet :
      (serveAll now l i intSched).elevators[k]? = some e') :
    ∃ e asked,
      l[k]? = some e ∧
      Turn (i + k) now asked e e'
        ((serveAll now l i intSched).trace.filter
          (ElevatorTrace.isAbout (i + k))) ∧
      (asked = true → intSched = true ∨
        ∃ j < k, ∃ d, l[j]? = some d ∧
          d.goesOn now = true) := by
  induction l generalizing i k intSched with
  | nil => cases hGet
  | cons d l ih =>
      rcases d.turn_of_serve now i intSched with
        ⟨d', hFirst, hTurn⟩
      have hElevators :
          (serveAll now (d :: l) i intSched).elevators =
            d' :: (serveAll now l (i + 1)
              (d.serve now i intSched).intSched).elevators :=
        congrArg (· ++ _) hFirst
      rw [hElevators] at hGet
      have hTrace :
          (serveAll now (d :: l) i intSched).trace =
            (d.serve now i intSched).trace ++
              (serveAll now l (i + 1)
                (d.serve now i intSched).intSched).trace :=
        rfl
      rw [hTrace, List.filter_append]
      cases k with
      | zero =>
          cases hGet
          refine ⟨d, intSched, rfl, ?_, Or.inl⟩
          rw [Nat.add_zero, filter_serve_self,
            filter_serveAll_of_lt (Nat.lt_succ_self i),
            List.append_nil]
          exact hTurn
      | succ k =>
          rcases ih hGet with ⟨e, asked, he, hOwn, hAsked⟩
          have hIndex : i + (k + 1) = i + 1 + k := by
            omega
          rw [hIndex, filter_serve_of_ne d now intSched
            (by omega), List.nil_append]
          refine ⟨e, asked, he, hOwn, ?_⟩
          intro hTrue
          rcases hAsked hTrue with hSched | ⟨j, hj, c, hc, hOn⟩
          · -- the elevator in front may be the one that asked
            rcases intSched_of_serve hSched with hOld | hOn
            · exact Or.inl hOld
            · exact Or.inr ⟨0, by omega, d, rfl, hOn⟩
          · exact Or.inr ⟨j + 1, by omega, c, hc, hOn⟩

end ElevatorInfo

end Nachos

------------------------------------
-- Turns in Every Step
------------------------------------

namespace Nachos

namespace ElevatorSim

open ElevatorInfo

variable {s t : ElevatorSim}
variable {i : Nat}
variable {e d e' : ElevatorInfo}

theorem turn_of_handled
    (hHandled : Handled s t)
    {e' : ElevatorInfo}
    (hGet : t.rest.elevators[i]? = some e') :
    ∃ e asked entries,
      s.rest.elevators[i]? = some e ∧
      Turn i (now s) asked e e' entries ∧
      t.rest.story i = s.rest.story i ++ entries ∧
      (asked = true →
        ∃ j < i, ∃ d, s.rest.elevators[j]? = some d ∧
          d.goesOn (now s) = true) := by
  rw [hHandled.rest_eq] at hGet ⊢
  rcases serveAll_turn hGet with ⟨e, asked, he, hTurn, hAsked⟩
  rw [Nat.zero_add] at hTurn
  refine ⟨e, asked, _, he, hTurn, ?_, ?_⟩
  · exact List.filter_append _ _
  · intro hTrue
    rcases hAsked hTrue with hFalse | hOther
    · cases hFalse
    · exact hOther

/- An elevator after a call that changes elevator `k`. -/
theorem getElem?_setInfo
    {k : Int}
    (hInfo : s.rest.info k = some e)
    (hGet :
      (s.rest.setInfo k d).elevators[i]? = some e') :
    (i = k.toNat ∧ e' = d ∧ s.rest.elevators[i]? = some e) ∨
      (i ≠ k.toNat ∧ s.rest.elevators[i]? = some e') := by
  have hOld : s.rest.elevators[k.toNat]? = some e := by
    unfold ElevatorBank.info at hInfo
    split at hInfo
    · exact hInfo
    · cases hInfo
  by_cases hEq : i = k.toNat
  · subst hEq
    have hLt := (List.getElem?_eq_some_iff.mp hOld).1
    have hNew : (s.rest.setInfo k d).elevators[k.toNat]? =
        some d := List.getElem?_set_self hLt
    exact Or.inl ⟨rfl,
      Option.some.inj (hGet.symm.trans hNew), hOld⟩
  · have hSame : (s.rest.setInfo k d).elevators[i]? =
        s.rest.elevators[i]? :=
      List.getElem?_set_ne (Ne.symm hEq)
    exact Or.inr ⟨hEq, hSame.symm.trans hGet⟩

/- The story goes on with one entry of the trace. -/
theorem story_note
    (bank : ElevatorBank)
    (entry : ElevatorTrace)
    (i : Nat) :
    (bank.note entry).story i =
      bank.story i ++
        [entry].filter (ElevatorTrace.isAbout i) :=
  List.filter_append _ _

theorem story_setEvents
    (bank : ElevatorBank)
    (events : List PendingElevatorEvent)
    (audience : Audience)
    (i : Nat) :
    (bank.setEvents events audience).story i =
      bank.story i := by
  unfold ElevatorBank.story
  rw [ElevatorBank.setEvents_trace]

/- Events other than arrivals are not told. -/
theorem story_appendEvent
    (bank : ElevatorBank)
    (audience : Audience)
    {event : PendingElevatorEvent}
    (hEvent : event.event ≠ .elevatorArrived)
    (inHandler : Bool)
    (i : Nat) :
    (bank.appendEvent audience event inHandler).story i =
      bank.story i := by
  unfold ElevatorBank.appendEvent
  rw [story_note, story_setEvents]
  have hNone : [ElevatorTrace.posted audience event
      inHandler].filter (ElevatorTrace.isAbout i) = [] := by
    rcases event with ⟨event, floor, elevator⟩
    cases audience with
    | riders => rfl
    | controllers =>
        cases event with
        | elevatorArrived => exact absurd rfl hEvent
        | doorsOpened => rfl
        | upButtonPressed => rfl
        | downButtonPressed => rfl
        | floorButtonPressed => rfl
  rw [hNone, List.append_nil]

/- A changed elevator that moves as before. -/
theorem kept_of_setInfo
    {k : Int}
    (hInfo : s.rest.info k = some e)
    (hGet :
      (s.rest.setInfo k d).elevators[i]? = some e')
    (hMotion : d.inMotion = e.inMotion)
    (hFloor : d.lastFloor = e.lastFloor)
    (hArrive : d.willArrive = e.willArrive)
    (hGoing : d.goingTo = e.goingTo) :
    ∃ e entries,
      s.rest.elevators[i]? = some e ∧
      Turn i (now s) false e e' entries ∧
      s.rest.story i = s.rest.story i ++ entries := by
  rcases getElem?_setInfo hInfo hGet with
    ⟨_, rfl, he⟩ | ⟨_, he⟩
  · exact ⟨e, [], he, .kept hMotion hFloor hArrive hGoing,
      (List.append_nil _).symm⟩
  · exact ⟨e', [], he, .kept rfl rfl rfl rfl,
      (List.append_nil _).symm⟩

/- A call that the trace notes for elevator `k`. -/
theorem turn_of_setInfo
    {k : Int}
    (hInfo : s.rest.info k = some e)
    (hGet :
      (s.rest.setInfo k d).elevators[i]? = some e')
    {floor : Int}
    {started : Bool}
    (hTurn :
      Turn k.toNat (now s) false e d
        [.moveTo k.toNat floor started (now s)]) :
    ∃ e entries,
      s.rest.elevators[i]? = some e ∧
      Turn i (now s) false e e' entries ∧
      ((s.rest.setInfo k d).note
        (.moveTo k.toNat floor started (now s))).story i =
          s.rest.story i ++ entries := by
  rcases getElem?_setInfo hInfo hGet with
    ⟨rfl, rfl, he⟩ | ⟨hNe, he⟩
  · refine ⟨e, _, he, hTurn, ?_⟩
    rw [story_note]
    simp [ElevatorTrace.isAbout, ElevatorBank.story,
      ElevatorBank.setInfo]
  · refine ⟨e', [], he, .kept rfl rfl rfl rfl, ?_⟩
    rw [story_note]
    simp [ElevatorTrace.isAbout, ElevatorBank.story,
      ElevatorBank.setInfo, Ne.symm hNe]

/- A call gives every elevator a turn. -/
theorem turn_of_effect
    {c : ElevatorCall}
    (hEffect : Effect s c t)
    {e' : ElevatorInfo}
    (hGet : t.rest.elevators[i]? = some e') :
    ∃ e entries,
      s.rest.elevators[i]? = some e ∧
      Turn i (now s) false e e' entries ∧
      t.rest.story i = s.rest.story i ++ entries := by
  cases hEffect with
  | opened hInfo _ _ hPost =>
      rw [(postEvent_spec hPost).1] at hGet ⊢
      rw [ElevatorBank.appendEvent_elevators] at hGet
      rw [story_appendEvent _ _ ElevatorEvent.noConfusion]
      exact kept_of_setInfo hInfo hGet rfl rfl rfl rfl
  | closed hInfo _ =>
      exact kept_of_setInfo hInfo hGet rfl rfl rfl rfl
  | started hInfo _ _ _ hStill _ hSchedule =>
      rw [(scheduleDone_spec hSchedule).1] at hGet ⊢
      exact turn_of_setInfo hInfo hGet (.started _ hStill)
  | retargeted hInfo _ _ _ hMoving =>
      exact turn_of_setInfo hInfo hGet
        (.retargeted _ hMoving)
  | touched hInfo hSame =>
      exact kept_of_setInfo hInfo hGet hSame.inMotion_eq
        hSame.lastFloor_eq hSame.willArrive_eq
        hSame.goingTo_eq
  | pressed hEvent hPost =>
      rw [(postEvent_spec hPost).1] at hGet ⊢
      rw [ElevatorBank.appendEvent_elevators] at hGet
      rw [story_appendEvent _ _ hEvent]
      exact ⟨e', [], hGet, .kept rfl rfl rfl rfl,
        (List.append_nil _).symm⟩
  | retrieved _ =>
      simp only [setBank, ElevatorBank.note,
        ElevatorBank.setEvents_elevators] at hGet
      refine ⟨e', [], hGet, .kept rfl rfl rfl rfl, ?_⟩
      show ((s.rest.setEvents _ _).note _).story i = _
      rw [story_note, story_setEvents]
      rfl
  | noEvent _ =>
      exact ⟨e', [], hGet, .kept rfl rfl rfl rfl,
        (List.append_nil _).symm⟩

variable
  {others : Nat → Interrupt ElevatorHandler → List OtherCall}
variable {mayCall : ElevatorBank → ElevatorCall → Prop}
variable {mayHandle : ElevatorBank → Int → Bool}

/-
  What every turn keeps holds of every elevator and its story
  in every run.  When an elevator does not get its next time
  of arrival, another one in front of it goes on as well.
-/
theorem story_invariant
    {P : Nat → ElevatorInfo → List ElevatorTrace → Prop}
    (hInit : ∀ i, P i .create [])
    (hTurn :
      ∀ i now asked e e' story entries,
        P i e story →
        (asked = true →
          ∃ bank : ElevatorBank, mayHandle bank now = true ∧
            bank.elevators[i]? = some e ∧
            ∃ j < i, ∃ d, bank.elevators[j]? = some d ∧
              d.goesOn now = true) →
        Turn i now asked e e' entries →
        P i e' (story ++ entries))
    (hReach :
      (guarded others mayCall mayHandle).Reachable s)
    {e : ElevatorInfo}
    (hGet : s.rest.elevators[i]? = some e) :
    P i e (s.rest.story i) := by
  refine guarded_invariant
    (P := fun s => ∀ i e, s.rest.elevators[i]? = some e →
      P i e (s.rest.story i)) ?_ ?_ ?_ ?_ hReach i e hGet
  · intro numElevators numFloors i e he
    rw [List.eq_of_mem_replicate (List.mem_of_getElem? he)]
    exact hInit i
  · intro s c t hs _ hEffect i e' he'
    rcases turn_of_effect hEffect he' with
      ⟨e, entries, he, hOwn, hStory⟩
    rw [hStory]
    exact hTurn i _ false e e' _ entries (hs i e he)
      (fun h => Bool.noConfusion h) hOwn
  · intro s t hs hMay hHandled i e' he'
    rcases turn_of_handled hHandled he' with
      ⟨e, asked, entries, he, hOwn, hStory, hAsked⟩
    rw [hStory]
    exact hTurn i _ asked e e' _ entries (hs i e he)
      (fun h => ⟨s.rest, hMay, he, hAsked h⟩) hOwn
  · intro s t hs hPassed
    rw [hPassed.rest_eq]
    exact hs

end ElevatorSim

end Nachos
