import Nachos.Machine.Delivery

/-
  A bank of elevators, which runs on interrupts of its own.

  The bank is the rest of the machine in the interrupt
  simulation.  Handlers of other devices are known by number
  and do not touch it.  What the callbacks of riders and
  controllers do to the bank shows up as calls of their own,
  since they come last in the handler.

  The trace of the bank is history: what was asked of the
  elevators, the floors that they reached, the events, and
  the calls of the handler.

  Main declarations:
    * `ElevatorSim.call`
    * `ElevatorSim.system`
-/

------------------------------------
-- One Elevator
------------------------------------

namespace Nachos

abbrev MaxRiders : Nat := 4

/- How long an elevator takes between floors. -/
abbrev DelayPerFloor : Int := 100

inductive Direction where
  | down
  | up
  | neither
  deriving DecidableEq

structure ElevatorInfo where
  display : Direction
  doorsOpen : Bool
  inMotion : Bool
  lastFloor : Int
  willArrive : Int
  goingTo : Int
  riders : List Nat

namespace ElevatorInfo

def create : ElevatorInfo where
  display := .neither
  doorsOpen := false
  inMotion := false
  lastFloor := 0
  willArrive := 0
  goingTo := 0
  riders := []

/- Open the doors; the result is the floor. -/
def openDoors
    (e : ElevatorInfo) :
    Option (Int × ElevatorInfo) :=
  if e.doorsOpen = false ∧ e.inMotion = false then
    some (e.lastFloor, { e with doorsOpen := true })
  else
    none

def closeDoors
    (e : ElevatorInfo) :
    Option ElevatorInfo :=
  if e.doorsOpen then
    some { e with doorsOpen := false }
  else
    none

/-
  Set the elevator in motion, or give it another floor to go
  to; the result is false if it was already moving.
-/
def moveTo
    (e : ElevatorInfo)
    (totalTicks goingToFloor : Int) :
    Option (Bool × ElevatorInfo) :=
  if e.doorsOpen = false ∧
      (e.inMotion = true ∨ e.lastFloor ≠ goingToFloor) then
    if e.inMotion then
      some (false, { e with goingTo := goingToFloor })
    else
      some (true,
        { e with
          goingTo := goingToFloor
          willArrive := totalTicks + DelayPerFloor
          inMotion := true })
  else
    none

/- A rider enters; false if the way is closed. -/
def enter
    (e : ElevatorInfo)
    (thread : Nat)
    (onFloor : Int) :
    Option (Bool × ElevatorInfo) :=
  if e.doorsOpen = false ∨ e.lastFloor ≠ onFloor then
    some (false, e)
  else if e.inMotion = false ∧
      e.riders.length < MaxRiders then
    some (true, { e with riders := e.riders ++ [thread] })
  else
    none

/- A rider leaves; false if the way is closed. -/
def exit
    (e : ElevatorInfo)
    (thread : Nat)
    (onFloor : Int) :
    Option (Bool × ElevatorInfo) :=
  if e.doorsOpen = false ∨ e.lastFloor ≠ onFloor then
    some (false, e)
  else if e.inMotion = false ∧ thread ∈ e.riders then
    some (true, { e with riders := e.riders.erase thread })
  else
    none

/- Has the elevator reached the next floor? -/
def reachedNextFloor
    (e : ElevatorInfo)
    (totalTicks : Int) :
    Bool × ElevatorInfo :=
  if e.inMotion = true ∧ totalTicks ≥ e.willArrive then
    (true,
      { e with
        lastFloor :=
          e.lastFloor +
            if e.goingTo > e.lastFloor then 1 else -1 })
  else
    (false, e)

/- Has it reached the destination? -/
def checkArrived
    (e : ElevatorInfo) :
    Bool × ElevatorInfo :=
  if e.inMotion = true ∧ e.lastFloor = e.goingTo then
    (true, { e with inMotion := false })
  else
    (false, e)

end ElevatorInfo

end Nachos

------------------------------------
-- The Bank
------------------------------------

namespace Nachos

/- `NoEvent` is an empty list of events. -/
inductive ElevatorEvent where
  | doorsOpened
  | upButtonPressed
  | downButtonPressed
  | floorButtonPressed
  | elevatorArrived
  deriving DecidableEq

structure PendingElevatorEvent where
  event : ElevatorEvent
  floor : Int
  elevator : Int
  deriving DecidableEq

/- Whom an event is for. -/
inductive Audience where
  | riders
  | controllers
  deriving DecidableEq

inductive ElevatorTrace where
  | moveTo
      (elevator : Nat)
      (goingTo : Int)
      (started : Bool)
      (now : Int)
  | reached (elevator : Nat) (floor now : Int)
  | posted
      (audience : Audience)
      (event : PendingElevatorEvent)
      (inHandler : Bool)
  | retrieved
      (audience : Audience)
      (event : PendingElevatorEvent)
  | handled (now : Int)
  deriving DecidableEq

structure ElevatorBank where
  numFloors : Int
  elevators : List ElevatorInfo
  riderEvents : List PendingElevatorEvent
  controllerEvents : List PendingElevatorEvent
  trace : List ElevatorTrace

namespace ElevatorBank

def create
    (numElevators : Nat)
    (numFloors : Int) :
    ElevatorBank where
  numFloors := numFloors
  elevators := List.replicate numElevators .create
  riderEvents := []
  controllerEvents := []
  trace := []

/- An elevator by its number, which has to be in range. -/
def info
    (bank : ElevatorBank)
    (elevator : Int) :
    Option ElevatorInfo :=
  if 0 ≤ elevator then
    bank.elevators[elevator.toNat]?
  else
    none

def setInfo
    (bank : ElevatorBank)
    (elevator : Int)
    (e : ElevatorInfo) :
    ElevatorBank :=
  { bank with
    elevators := bank.elevators.set elevator.toNat e }

def note
    (bank : ElevatorBank)
    (entry : ElevatorTrace) :
    ElevatorBank :=
  { bank with trace := bank.trace ++ [entry] }

def events
    (bank : ElevatorBank) :
    Audience → List PendingElevatorEvent
| .riders => bank.riderEvents
| .controllers => bank.controllerEvents

def setEvents
    (bank : ElevatorBank)
    (events : List PendingElevatorEvent) :
    Audience → ElevatorBank
| .riders => { bank with riderEvents := events }
| .controllers => { bank with controllerEvents := events }

/- Append an event to the list of its audience. -/
def appendEvent
    (bank : ElevatorBank)
    (audience : Audience)
    (event : PendingElevatorEvent)
    (inHandler : Bool) :
    ElevatorBank :=
  (bank.setEvents (bank.events audience ++ [event])
    audience).note (.posted audience event inHandler)

variable (bank : ElevatorBank)

@[simp] theorem setEvents_elevators
    (events : List PendingElevatorEvent)
    (audience : Audience) :
    (bank.setEvents events audience).elevators =
      bank.elevators := by
  cases audience <;> rfl

@[simp] theorem setEvents_numFloors
    (events : List PendingElevatorEvent)
    (audience : Audience) :
    (bank.setEvents events audience).numFloors =
      bank.numFloors := by
  cases audience <;> rfl

@[simp] theorem setEvents_trace
    (events : List PendingElevatorEvent)
    (audience : Audience) :
    (bank.setEvents events audience).trace =
      bank.trace := by
  cases audience <;> rfl

@[simp] theorem appendEvent_elevators
    (audience : Audience)
    (event : PendingElevatorEvent)
    (inHandler : Bool) :
    (bank.appendEvent audience event inHandler).elevators =
      bank.elevators :=
  setEvents_elevators bank _ audience

@[simp] theorem appendEvent_numFloors
    (audience : Audience)
    (event : PendingElevatorEvent)
    (inHandler : Bool) :
    (bank.appendEvent audience event inHandler).numFloors =
      bank.numFloors :=
  setEvents_numFloors bank _ audience

@[simp] theorem appendEvent_trace
    (audience : Audience)
    (event : PendingElevatorEvent)
    (inHandler : Bool) :
    (bank.appendEvent audience event inHandler).trace =
      bank.trace ++ [.posted audience event inHandler] := by
  simp only [appendEvent, note, setEvents_trace]

theorem mem_of_info
    {bank : ElevatorBank}
    {elevator : Int}
    {e : ElevatorInfo}
    (hInfo : bank.info elevator = some e) :
    e ∈ bank.elevators := by
  unfold info at hInfo
  split at hInfo
  · exact List.mem_of_getElem? hInfo
  · cases hInfo

end ElevatorBank

end Nachos

------------------------------------
-- The Interrupt Handler
------------------------------------

namespace Nachos

/- What a round of the handler makes of the elevators. -/
structure ElevatorRound where
  elevators : List ElevatorInfo
  events : List PendingElevatorEvent
  trace : List ElevatorTrace
  intSched : Bool

/-
  What the handler does with one elevator.  An interrupt for
  the next floor is needed only once, and only then the time
  of arrival is set.
-/
def ElevatorInfo.serve
    (e : ElevatorInfo)
    (now : Int)
    (i : Nat)
    (intSched : Bool) :
    ElevatorRound :=
  let (reached, e) := e.reachedNextFloor now
  if reached then
    let entry := .reached i e.lastFloor now
    let (arrived, e) := e.checkArrived
    if arrived then
      let event := ⟨.elevatorArrived, e.goingTo, i⟩
      ⟨[e], [event],
        [entry, .posted .controllers event true], intSched⟩
    else if !intSched then
      ⟨[{ e with willArrive := e.willArrive + DelayPerFloor }],
        [], [entry], true⟩
    else
      ⟨[e], [], [entry], intSched⟩
  else
    ⟨[e], [], [], intSched⟩

/- The loop over the elevators, from number `i` on. -/
def ElevatorInfo.serveAll
    (now : Int) :
    List ElevatorInfo → Nat → Bool → ElevatorRound
| [], _, intSched => ⟨[], [], [], intSched⟩
| e :: rest, i, intSched =>
    let first := e.serve now i intSched
    let others := serveAll now rest (i + 1) first.intSched
    ⟨first.elevators ++ others.elevators,
      first.events ++ others.events,
      first.trace ++ others.trace, others.intSched⟩

/- The handler of the bank, and those of other devices. -/
inductive ElevatorHandler where
  | elevatorDone
  | other (number : Nat)
  deriving DecidableEq

/- The state of the bank changes only in its own handler. -/
inductive BankOp where
  | handle (now : Int)

/- What handlers of other devices may do. -/
inductive OtherCall where
  | schedule (number : Nat) (fromNow : Int) (type : IntType)
  | yieldOnReturn

namespace ElevatorBank

def round
    (bank : ElevatorBank)
    (now : Int) :
    ElevatorRound :=
  ElevatorInfo.serveAll now bank.elevators 0 false

/- The bank after a call of the handler. -/
def handled
    (bank : ElevatorBank)
    (now : Int) :
    ElevatorBank :=
  let round := bank.round now
  { bank with
    elevators := round.elevators
    controllerEvents := bank.controllerEvents ++ round.events
    trace := bank.trace ++ .handled now :: round.trace }

/- The calls of the handler. -/
def handleInterrupt
    (bank : ElevatorBank)
    (now : Int) :
    List (HandlerCall ElevatorHandler BankOp) :=
  .device (.handle now) ::
    if (bank.round now).intSched then
      [.schedule .elevatorDone DelayPerFloor .elevator]
    else
      []

end ElevatorBank

def OtherCall.handlerCall :
    OtherCall → HandlerCall ElevatorHandler BankOp
| .schedule number fromNow type =>
    .schedule (.other number) fromNow type
| .yieldOnReturn => .yieldOnReturn

/- The bank together with the handlers of other devices. -/
def elevatorDevice
    (others : Nat → Interrupt ElevatorHandler → List OtherCall) :
    Device ElevatorHandler ElevatorBank BankOp where
  delayedLoad := id
  exec
    | .handle now, bank => some (bank.handled now)
  body
    | .elevatorDone, i, bank =>
        bank.handleInterrupt i.stats.totalTicks
    | .other number, i, _ =>
        (others number i).map OtherCall.handlerCall

/- The handler is called only if it may be. -/
def guardedDevice
    (others : Nat → Interrupt ElevatorHandler → List OtherCall)
    (mayHandle : ElevatorBank → Int → Bool) :
    Device ElevatorHandler ElevatorBank BankOp :=
  { elevatorDevice others with
    exec
      | .handle now, bank =>
          if mayHandle bank now then
            some (bank.handled now)
          else
            none }

theorem guardedDevice_true
    (others : Nat → Interrupt ElevatorHandler → List OtherCall) :
    guardedDevice others (fun _ _ => true) =
      elevatorDevice others :=
  rfl

end Nachos

------------------------------------
-- Calls of Riders and Controllers
------------------------------------

namespace Nachos

abbrev ElevatorSim :=
  Sim ElevatorHandler ElevatorBank

/- Threads that ride are known by number. -/
inductive ElevatorCall where
  | openDoors (elevator : Int)
  | closeDoors (elevator : Int)
  | moveTo (goingToFloor elevator : Int)
  | markDirection (elevator : Int) (dir : Direction)
  | pressButton (onFloor : Int) (goingTo : Direction)
  | enterElevator (thread : Nat) (onFloor elevator : Int)
  | pressFloor (goingToFloor elevator : Int)
  | exitElevator (thread : Nat) (onFloor elevator : Int)
  | getNextEvent (audience : Audience)

namespace ElevatorSim

def now
    (s : ElevatorSim) :
    Int :=
  s.interrupt.stats.totalTicks

def setBank
    (s : ElevatorSim)
    (bank : ElevatorBank) :
    ElevatorSim :=
  ⟨s.interrupt, bank⟩

/- Have the handler of the bank called after some time. -/
def scheduleDone
    (s : ElevatorSim)
    (fromNow : Int) :
    Option ElevatorSim := do
  let i ←
    s.interrupt.schedule .elevatorDone fromNow .elevator
  some ⟨i, s.rest⟩

/-
  Post an event outside of a handler, and cause an interrupt
  to pick it up soon.
-/
def postEvent
    (s : ElevatorSim)
    (audience : Audience)
    (event : PendingElevatorEvent) :
    Option ElevatorSim :=
  scheduleDone
    (setBank s (s.rest.appendEvent audience event false)) 1

def openDoors
    (s : ElevatorSim)
    (elevator : Int) :
    Option ElevatorSim := do
  let e ← s.rest.info elevator
  let (floor, e) ← e.openDoors
  postEvent (setBank s (s.rest.setInfo elevator e)) .riders
    ⟨.doorsOpened, floor, elevator⟩

def closeDoors
    (s : ElevatorSim)
    (elevator : Int) :
    Option ElevatorSim := do
  let e ← s.rest.info elevator
  let e ← e.closeDoors
  some (setBank s (s.rest.setInfo elevator e))

def moveTo
    (s : ElevatorSim)
    (goingToFloor elevator : Int) :
    Option ElevatorSim := do
  let e ← s.rest.info elevator
  guard (0 ≤ goingToFloor ∧ goingToFloor < s.rest.numFloors)
  let (started, e) ← e.moveTo (now s) goingToFloor
  let s' := setBank s
    ((s.rest.setInfo elevator e).note
      (.moveTo elevator.toNat goingToFloor started (now s)))
  if started then
    scheduleDone s' DelayPerFloor
  else
    some s'

def markDirection
    (s : ElevatorSim)
    (elevator : Int)
    (dir : Direction) :
    Option ElevatorSim := do
  let e ← s.rest.info elevator
  some (setBank s
    (s.rest.setInfo elevator { e with display := dir }))

/- The number of the elevator is ignored for buttons. -/
def pressButton
    (s : ElevatorSim)
    (onFloor : Int)
    (goingTo : Direction) :
    Option ElevatorSim := do
  guard (0 ≤ onFloor ∧ onFloor < s.rest.numFloors ∧
    goingTo ≠ .neither)
  let event :=
    if goingTo = .up then
      ElevatorEvent.upButtonPressed
    else
      .downButtonPressed
  postEvent s .controllers ⟨event, onFloor, 0⟩

def enterElevator
    (s : ElevatorSim)
    (thread : Nat)
    (onFloor elevator : Int) :
    Option ElevatorSim := do
  guard (0 ≤ onFloor ∧ onFloor < s.rest.numFloors)
  let e ← s.rest.info elevator
  let (_, e) ← e.enter thread onFloor
  some (setBank s (s.rest.setInfo elevator e))

def pressFloor
    (s : ElevatorSim)
    (goingToFloor elevator : Int) :
    Option ElevatorSim := do
  guard (0 ≤ goingToFloor ∧ goingToFloor < s.rest.numFloors)
  let _ ← s.rest.info elevator
  postEvent s .controllers
    ⟨.floorButtonPressed, goingToFloor, elevator⟩

def exitElevator
    (s : ElevatorSim)
    (thread : Nat)
    (onFloor elevator : Int) :
    Option ElevatorSim := do
  guard (0 ≤ onFloor ∧ onFloor < s.rest.numFloors)
  let e ← s.rest.info elevator
  let (_, e) ← e.exit thread onFloor
  some (setBank s (s.rest.setInfo elevator e))

/- Retrieve an event; nothing happens when there is none. -/
def getNextEvent
    (s : ElevatorSim)
    (audience : Audience) :
    ElevatorSim :=
  match s.rest.events audience with
  | [] => s
  | event :: events =>
      setBank s ((s.rest.setEvents events audience).note
        (.retrieved audience event))

def call
    (s : ElevatorSim) :
    ElevatorCall → Option ElevatorSim
| .openDoors elevator => openDoors s elevator
| .closeDoors elevator => closeDoors s elevator
| .moveTo goingToFloor elevator =>
    moveTo s goingToFloor elevator
| .markDirection elevator dir => markDirection s elevator dir
| .pressButton onFloor goingTo =>
    pressButton s onFloor goingTo
| .enterElevator thread onFloor elevator =>
    enterElevator s thread onFloor elevator
| .pressFloor goingToFloor elevator =>
    pressFloor s goingToFloor elevator
| .exitElevator thread onFloor elevator =>
    exitElevator s thread onFloor elevator
| .getNextEvent audience => some (getNextEvent s audience)

end ElevatorSim

end Nachos

------------------------------------
-- Runs
------------------------------------

namespace Nachos

/-
  Calls, direct calls of the handler, and what the machine
  does otherwise: the clock advances, due interrupts fire,
  and other devices schedule interrupts.
-/
inductive ElevatorAction where
  | call (c : ElevatorCall)
  | handleInterrupt
  | machine (r : Request ElevatorHandler BankOp)

namespace ElevatorSim

variable
  (others : Nat → Interrupt ElevatorHandler → List OtherCall)

def step
    (s : ElevatorSim) :
    ElevatorAction → Option ElevatorSim
| .call c => call s c
| .handleInterrupt =>
    (s.rest.handleInterrupt (now s)).foldlM
      (Sim.perform (elevatorDevice others)) s
| .machine r => Sim.request (elevatorDevice others) s r

/- The rest of the machine does not act for the bank. -/
def IsForeign :
    Request ElevatorHandler BankOp → Prop
| .schedule handler _ _ => handler ≠ .elevatorDone
| .device _ => False
| _ => True

def Allowed
    (mayCall : ElevatorBank → ElevatorCall → Prop)
    (s : ElevatorSim) :
    ElevatorAction → Prop
| .call c => mayCall s.rest c
| .handleInterrupt => True
| .machine r => IsForeign r

/- Runs of a bank with any number of elevators and floors. -/
def system
    (mayCall : ElevatorBank → ElevatorCall → Prop) :
    Transition.System ElevatorSim ElevatorAction where
  init := fun s =>
    s.interrupt = Interrupt.create ∧
      ∃ numElevators numFloors,
        s.rest = ElevatorBank.create numElevators numFloors
  allowed := Allowed mayCall
  step := step others

def guardedStep
    (mayHandle : ElevatorBank → Int → Bool)
    (s : ElevatorSim) :
    ElevatorAction → Option ElevatorSim
| .call c => call s c
| .handleInterrupt =>
    (s.rest.handleInterrupt (now s)).foldlM
      (Sim.perform (guardedDevice others mayHandle)) s
| .machine r =>
    Sim.request (guardedDevice others mayHandle) s r

/- Runs in which the handler is called only if it may be. -/
def guarded
    (mayCall : ElevatorBank → ElevatorCall → Prop)
    (mayHandle : ElevatorBank → Int → Bool) :
    Transition.System ElevatorSim ElevatorAction :=
  { system others mayCall with
    step := guardedStep others mayHandle }

theorem guarded_true
    (mayCall : ElevatorBank → ElevatorCall → Prop) :
    guarded others mayCall (fun _ _ => true) =
      system others mayCall := by
  have hStep : guardedStep others (fun _ _ => true) =
      step others := by
    funext s a
    unfold guardedStep step
    rw [guardedDevice_true]
  unfold guarded
  rw [hStep]
  rfl

instance
    (r : Request ElevatorHandler BankOp) :
    Decidable (IsForeign r) :=
  match r with
  | .schedule handler _ _ =>
      inferInstanceAs (Decidable (handler ≠ .elevatorDone))
  | .device _ => .isFalse id
  | .oneTick | .idle | .changeLevel _ | .setStatus _ =>
      .isTrue trivial

instance
    {mayCall : ElevatorBank → ElevatorCall → Prop}
    [∀ bank c, Decidable (mayCall bank c)]
    (s : ElevatorSim)
    (a : ElevatorAction) :
    Decidable ((system others mayCall).allowed s a) :=
  match a with
  | .call c => inferInstanceAs (Decidable (mayCall s.rest c))
  | .handleInterrupt => .isTrue trivial
  | .machine r => inferInstanceAs (Decidable (IsForeign r))

instance
    {mayCall : ElevatorBank → ElevatorCall → Prop}
    [∀ bank c, Decidable (mayCall bank c)]
    {mayHandle : ElevatorBank → Int → Bool}
    (s : ElevatorSim)
    (a : ElevatorAction) :
    Decidable ((guarded others mayCall mayHandle).allowed
      s a) :=
  inferInstanceAs
    (Decidable ((system others mayCall).allowed s a))

end ElevatorSim

end Nachos
