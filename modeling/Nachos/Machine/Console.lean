import Nachos.Lib.Bytes
import Nachos.Machine.Delivery

/-
  The console, a keyboard and a display.

  The console is the rest of the machine in the interrupt
  simulation.  What the handlers of the kernel do shows up as
  calls of their own, since they come last in the interrupt
  handlers of the console.

  The buffer for input holds one character, and the value of
  `EOF` marks it as empty.  A `char` is signed.

  Main declarations:
    * `Console`
    * `ConsoleSim.system`
-/

------------------------------------
-- The Device
------------------------------------

namespace Nachos

open Bytes

abbrev ConsoleTime : Int := 100

/- The value of `EOF`, which is an `int`. -/
abbrev EOF : Int := -1

/-
  Characters that were typed wait in `keyboard`.  The last
  four fields are history: all that was typed, the calls of
  the read handler, what `GetChar` returned, and the calls of
  the write handler.
-/
structure Console where
  incoming : Byte
  putBusy : Bool
  keyboard : List Byte
  display : List Byte
  typed : List Byte
  readSignals : Nat
  returned : List Byte
  writeSignals : Nat

namespace Console

def create :
    Console where
  incoming := BitVec.ofInt 8 EOF
  putBusy := false
  keyboard := []
  display := []
  typed := []
  readSignals := 0
  returned := []
  writeSignals := 0

/- A character is typed at the keyboard. -/
def type
    (c : Console)
    (ch : Byte) :
    Console :=
  { c with
    keyboard := c.keyboard ++ [ch]
    typed := c.typed ++ [ch] }

/-
  Read a character, unless one is buffered or there is none,
  and call the read handler.  The keyboard is assumed never to
  end: at the end of a file `PollFile` is true with nothing to
  be read, and `Read` aborts.
-/
def checkCharAvail
    (c : Console) :
    Console :=
  if c.incoming.toInt ≠ EOF then
    c
  else
    match c.keyboard with
    | [] => c
    | ch :: keyboard =>
        { c with
          incoming := ch
          keyboard := keyboard
          readSignals := c.readSignals + 1 }

/- Take the character out of the buffer. -/
def getChar
    (c : Console) :
    Console :=
  { c with
    incoming := BitVec.ofInt 8 EOF
    returned := c.returned ++ [c.incoming] }

def writeDone
    (c : Console) :
    Console :=
  { c with
    putBusy := false
    writeSignals := c.writeSignals + 1 }

end Console

end Nachos

------------------------------------
-- Interrupts
------------------------------------

namespace Nachos

inductive ConsoleHandler where
  | readPoll
  | writeDone
  deriving DecidableEq

inductive ConsoleOp where
  | checkCharAvail
  | writeDone

/- The calls of `CheckCharAvail`: first the next poll. -/
def pollCalls :
    List (HandlerCall ConsoleHandler ConsoleOp) :=
  [.schedule .readPoll ConsoleTime .consoleRead,
    .device .checkCharAvail]

def consoleDevice :
    Device ConsoleHandler Console ConsoleOp where
  delayedLoad := id
  exec
    | .checkCharAvail, c => some c.checkCharAvail
    | .writeDone, c => some c.writeDone
  body
    | .readPoll, _, _ => pollCalls
    | .writeDone, _, _ => [.device .writeDone]

abbrev ConsoleSim :=
  Sim ConsoleHandler Console

namespace ConsoleSim

/- The constructor starts to poll for input. -/
def create :
    Option ConsoleSim := do
  let i ← Interrupt.create.schedule .readPoll ConsoleTime
    .consoleRead
  some ⟨i, Console.create⟩

/-
  Write a character to the display and have an interrupt tell
  when it is done.
-/
def putChar
    (s : ConsoleSim)
    (ch : Bytes.Byte) :
    Option ConsoleSim :=
  if s.rest.putBusy = false then do
    let i ← s.interrupt.schedule .writeDone ConsoleTime
      .consoleWrite
    some ⟨i,
      { s.rest with
        display := s.rest.display ++ [ch]
        putBusy := true }⟩
  else
    none

/-
  Input is typed, the kernel uses the console, and the
  machine runs; `CheckCharAvail` may also be called directly.
-/
inductive Action where
  | type (ch : Bytes.Byte)
  | checkCharAvail
  | getChar
  | putChar (ch : Bytes.Byte)
  | oneTick
  | idle
  | changeLevel (now : IntStatus)
  | setStatus (status : MachineStatus)

def step
    (s : ConsoleSim) :
    Action → Option ConsoleSim
| .type ch => some ⟨s.interrupt, s.rest.type ch⟩
| .checkCharAvail =>
    pollCalls.foldlM (Sim.perform consoleDevice) s
| .getChar => some ⟨s.interrupt, s.rest.getChar⟩
| .putChar ch => putChar s ch
| .oneTick => Sim.request consoleDevice s .oneTick
| .idle => Sim.request consoleDevice s .idle
| .changeLevel now =>
    Sim.request consoleDevice s (.changeLevel now)
| .setStatus status =>
    Sim.request consoleDevice s (.setStatus status)

/- One call of `GetChar` for each call of the read handler. -/
def Allowed
    (s : ConsoleSim) :
    Action → Prop
| .getChar => s.rest.returned.length < s.rest.readSignals
| _ => True

def system :
    Transition.System ConsoleSim Action where
  init := fun s => create = some s
  allowed := Allowed
  step := step

end ConsoleSim

end Nachos
