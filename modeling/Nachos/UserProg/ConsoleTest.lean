import Nachos.Machine.ConsoleInput
import Nachos.Machine.Stable
import Nachos.Machine.Draining

/-
  The console test, which echoes what is typed.

  `ConsoleTest` is the only thread.  Its handlers call `V` on
  the two semaphores, and where it waits in `P` the machine
  idles.  One step is one round of a loop of `P`, or one
  statement between the calls of `P`; characters may be typed
  before every step.  A failed assertion is `none`.  The input
  comes from a keyboard that never ends; at the end of a file
  the next poll would abort in `Read`.

  Main declarations:
    * `EchoSim.advance`
    * `EchoSim.system`
    * `Echo.checkCharAvail_cases`
    * `EchoSim.steady_sound`
-/

------------------------------------
-- The Program
------------------------------------

namespace Nachos

open Bytes

/- The character that ends the test. -/
abbrev quitChar : Byte :=
  0x71#8

/-
  Where the thread is: in the loops of `P`, behind them where
  interrupts are turned on again, or in between.
-/
inductive EchoPc where
  | readP
  | readEnd
  | getChar
  | putChar (ch : Byte)
  | writeP (ch : Byte)
  | writeEnd (ch : Byte)
  | done
  | halted
  deriving DecidableEq

/- The console, the values of the semaphores and the thread. -/
structure Echo where
  console : Console
  readAvail : Nat
  writeDone : Nat
  pc : EchoPc

namespace Echo

/- The read handler calls `V` for each character. -/
def checkCharAvail
    (e : Echo) :
    Echo :=
  { e with
    console := e.console.checkCharAvail
    readAvail :=
      e.readAvail +
        (e.console.checkCharAvail.readSignals -
          e.console.readSignals) }

/- The write handler calls `V`. -/
def finishWrite
    (e : Echo) :
    Echo :=
  { e with
    console := e.console.writeDone
    writeDone := e.writeDone + 1 }

def start : Echo where
  console := Console.create
  readAvail := 0
  writeDone := 0
  pc := .readP

end Echo

def echoDevice :
    Device ConsoleHandler Echo ConsoleOp where
  delayedLoad := id
  exec
    | .checkCharAvail, e => some e.checkCharAvail
    | .writeDone, e => some e.finishWrite
  body
    | .readPoll, _, _ => pollCalls
    | .writeDone, _, _ => [.device .writeDone]

abbrev EchoSim :=
  Sim ConsoleHandler Echo

namespace EchoSim

def setPc
    (s : EchoSim)
    (pc : EchoPc) :
    EchoSim :=
  { s with rest := { s.rest with pc := pc } }

def setLevel
    (s : EchoSim)
    (level : IntStatus) :
    EchoSim :=
  { s with interrupt := s.interrupt.changeLevel level }

/-
  One round of the loop of `P`: with no unit to take and no
  other thread to run, the machine idles, and halts when
  there is nothing to wait for.
-/
def waitRound
    (s : EchoSim) :
    Option EchoSim := do
  let (fired, s) ← s.idle echoDevice
  if fired then
    some s
  else
    some (setPc s .halted)

/-
  The end of `P`: interrupts are turned on again, and the
  clock ticks.  No handler asks for a context switch.
-/
def enable
    (s : EchoSim) :
    Option EchoSim := do
  let (tick, i) ← s.interrupt.setLevel .on
  if tick then
    let (yield, s) ← Sim.oneTick echoDevice { s with interrupt := i }
    if yield.isNone then
      some s
    else
      none
  else
    some { s with interrupt := i }

def getChar
    (s : EchoSim) :
    EchoSim :=
  { s with
    rest :=
      { s.rest with
        console := s.rest.console.getChar
        pc := .putChar s.rest.console.incoming } }

/- Echo the character and enter `P`. -/
def putChar
    (s : EchoSim)
    (ch : Byte) :
    Option EchoSim := do
  let c ← ConsoleSim.putChar ⟨s.interrupt, s.rest.console⟩ ch
  some
    { interrupt := c.interrupt.changeLevel .off
      rest :=
        { s.rest with
          console := c.rest
          pc := .writeP ch } }

/- After the write is done, quit or enter `P` again. -/
def next
    (s : EchoSim)
    (ch : Byte) :
    EchoSim :=
  if ch = quitChar then
    s.setPc .done
  else
    (s.setPc .readP).setLevel .off

def advance
    (s : EchoSim) :
    Option EchoSim :=
  match s.rest.pc with
  | .readP =>
      if s.rest.readAvail = 0 then
        s.waitRound
      else
        some
          { s with
            rest :=
              { s.rest with
                readAvail := s.rest.readAvail - 1
                pc := .readEnd } }
  | .readEnd => do
      let s ← s.enable
      some (s.setPc .getChar)
  | .getChar => some s.getChar
  | .putChar ch => s.putChar ch
  | .writeP ch =>
      if s.rest.writeDone = 0 then
        s.waitRound
      else
        some
          { s with
            rest :=
              { s.rest with
                writeDone := s.rest.writeDone - 1
                pc := .writeEnd ch } }
  | .writeEnd ch => do
      let s ← s.enable
      some (s.next ch)
  | .done => none
  | .halted => none

inductive Action where
  | type (ch : Byte)
  | advance

def step
    (s : EchoSim) :
    Action → Option EchoSim
| .type ch =>
    some
      { s with
        rest :=
          { s.rest with
            console := s.rest.console.type ch } }
| .advance => s.advance

/-
  The test starts with nothing pending.  The constructor of
  the console starts to poll, and the thread enters `P`.
-/
def Starts
    (s : EchoSim) : Prop :=
  ∃ i : Interrupt ConsoleHandler,
    i.pending = [] ∧ i.level = .off ∧
    i.inHandler = false ∧ i.yieldOnReturn = false ∧
    i.status = .system ∧
    i.schedule .readPoll ConsoleTime .consoleRead =
      some s.interrupt ∧
    s.rest = Echo.start

def system :
    Transition.System EchoSim Action where
  init := Starts
  allowed := fun _ _ => True
  step := step

end EchoSim

end Nachos

------------------------------------
-- Interrupts of the Test
------------------------------------

namespace Nachos

namespace EchoSim

/- A poll schedules the next one and looks for input. -/
theorem fire_readPoll
    {s : EchoSim}
    {p : PendingInterrupt ConsoleHandler}
    (hHandler : p.handler = .readPoll) :
    s.fire echoDevice p =
      some
        { interrupt :=
            { s.interrupt with
              pending :=
                PriorityList.insert (·.when)
                  { handler := .readPoll
                    when :=
                      s.interrupt.stats.totalTicks +
                        ConsoleTime
                    type := .consoleRead
                    serial := s.interrupt.scheduled.length }
                  s.interrupt.pending
              inHandler := false
              scheduled :=
                s.interrupt.scheduled ++
                  [{ handler := .readPoll
                     when :=
                       s.interrupt.stats.totalTicks +
                         ConsoleTime
                     type := .consoleRead
                     serial := s.interrupt.scheduled.length }]
              fired :=
                s.interrupt.fired ++
                  [(p, s.interrupt.stats.totalTicks)] }
          rest := s.rest.checkCharAvail } := by
  simp only [Sim.fire, echoDevice, hHandler, pollCalls]
  rfl

theorem fire_writeDone
    {s : EchoSim}
    {p : PendingInterrupt ConsoleHandler}
    (hHandler : p.handler = .writeDone) :
    s.fire echoDevice p =
      some
        { interrupt :=
            { s.interrupt with
              inHandler := false
              fired :=
                s.interrupt.fired ++
                  [(p, s.interrupt.stats.totalTicks)] }
          rest := s.rest.finishWrite } := by
  simp only [Sim.fire, echoDevice, hHandler]
  rfl

theorem echoDevice_returning :
    echoDevice.Returning := by
  intro handler i k call hCall
  cases handler with
  | readPoll =>
      rcases List.mem_cons.mp hCall with rfl | hCall
      · exact (by decide : (0 : Int) < ConsoleTime)
      · cases List.mem_singleton.mp hCall
        exact fun e => ⟨e.checkCharAvail, rfl⟩
  | writeDone =>
      cases List.mem_singleton.mp hCall
      exact fun e => ⟨e.finishWrite, rfl⟩

/-
  What is pending: one poll, and the end of a write while the
  display is busy; all of it at most `ConsoleTime` ahead.
-/
structure Wired
    (s : EchoSim) : Prop where
  sorted :
    PriorityList.Sorted (·.when) s.interrupt.pending
  near :
    ∀ p ∈ s.interrupt.pending,
      p.when ≤ s.interrupt.stats.totalTicks + ConsoleTime
  devices :
    ∀ p ∈ s.interrupt.pending, p.type ≠ .timer
  polls :
    (s.interrupt.pending.countP fun p =>
      p.handler = .readPoll) = 1
  writes :
    (s.interrupt.pending.countP fun p =>
      p.handler = .writeDone) =
        if s.rest.console.putBusy then 1 else 0

end EchoSim

end Nachos

------------------------------------
-- Units and Characters
------------------------------------

namespace Nachos

open Bytes

/- Whether a write is to be waited for. -/
def EchoPc.awaiting : EchoPc → Nat
| .writeP _ => 1
| _ => 0

/- Whether a unit of `readAvail` was taken. -/
def EchoPc.taken : EchoPc → Nat
| .readEnd => 1
| .getChar => 1
| _ => 0

/- The character that was read and not yet written. -/
def EchoPc.held : EchoPc → List Byte
| .putChar ch => [ch]
| _ => []

/- The character that was written and not yet looked at. -/
def EchoPc.last : EchoPc → List Byte
| .writeP ch => [ch]
| .writeEnd ch => [ch]
| .done => [quitChar]
| _ => []

/- The character in the input buffer. -/
def Console.buffered
    (c : Console) :
    List Byte :=
  if c.incoming = eofChar then [] else [c.incoming]

namespace Echo

/- Nothing typed looks like an empty buffer. -/
def Clean
    (e : Echo) : Prop :=
  eofChar ∉ e.console.typed

/-
  The units of the semaphores match the console, characters
  are neither lost nor doubled nor swapped, and a quit was
  not overlooked.
-/
structure Good
    (e : Echo) : Prop where
  writes :
    e.writeDone + (if e.console.putBusy then 1 else 0) =
      e.pc.awaiting
  reads :
    e.Clean →
      e.readAvail + e.pc.taken = e.console.buffered.length
  order :
    e.Clean →
      e.console.display ++ e.pc.held ++
        e.console.buffered ++ e.console.keyboard =
          e.console.typed
  quits :
    ∃ before, e.console.display = before ++ e.pc.last ∧
      quitChar ∉ before
  running : e.pc ≠ .halted

theorem good_start :
    start.Good where
  writes := rfl
  reads := fun _ => rfl
  order := fun _ => rfl
  quits := ⟨[], rfl, List.not_mem_nil⟩
  running := EchoPc.noConfusion

theorem Good.type
    {e : Echo}
    (hGood : e.Good)
    (ch : Byte) :
    ({ e with console := e.console.type ch } : Echo).Good := by
  have hClean :
      ({ e with console := e.console.type ch } :
        Echo).Clean → e.Clean :=
    fun hClean hMem =>
      hClean (List.mem_append_left _ hMem)
  refine ⟨hGood.writes, fun h => hGood.reads (hClean h), ?_,
    hGood.quits, hGood.running⟩
  intro h
  have hOrder := hGood.order (hClean h)
  rw [Console.type, ← List.append_assoc]
  exact congrArg (· ++ [ch]) hOrder

/- All that a poll does to the test. -/
theorem checkCharAvail_cases
    (e : Echo) :
    (e.checkCharAvail = e ∧
      (e.console.incoming ≠ eofChar ∨
        e.console.keyboard = [])) ∨
    ∃ ch keyboard,
      e.console.incoming = eofChar ∧
      e.console.keyboard = ch :: keyboard ∧
      e.checkCharAvail =
        { e with
          console :=
            { e.console with
              incoming := ch
              keyboard := keyboard
              readSignals := e.console.readSignals + 1 }
          readAvail := e.readAvail + 1 } := by
  have hSame :
      e.console.checkCharAvail = e.console →
        e.checkCharAvail = e := by
    intro hConsole
    rw [Echo.checkCharAvail, hConsole, Nat.sub_self]
    rfl
  by_cases hFull : e.console.incoming.toInt ≠ EOF
  · refine Or.inl ⟨hSame (if_pos hFull), Or.inl ?_⟩
    rw [Ne, ← toInt_eq_EOF_iff]
    exact hFull
  have hEmpty : e.console.incoming = eofChar :=
    toInt_eq_EOF_iff.mp (not_not.mp hFull)
  cases hKeyboard : e.console.keyboard with
  | nil =>
      refine Or.inl ⟨hSame ?_, Or.inr rfl⟩
      rw [Console.checkCharAvail, if_neg hFull, hKeyboard]
  | cons ch keyboard =>
      refine Or.inr ⟨ch, keyboard, hEmpty, rfl, ?_⟩
      have hRead : e.console.checkCharAvail =
          { e.console with
            incoming := ch
            keyboard := keyboard
            readSignals := e.console.readSignals + 1 } := by
        rw [Console.checkCharAvail, if_neg hFull, hKeyboard]
      rw [Echo.checkCharAvail, hRead, Nat.add_sub_cancel_left]

/- A poll moves a character from the keyboard to the buffer. -/
theorem Good.checkCharAvail
    {e : Echo}
    (hGood : e.Good) :
    e.checkCharAvail.Good := by
  rcases checkCharAvail_cases e with
    ⟨hSame, _⟩ | ⟨ch, keyboard, hEmpty, hKeyboard, hRead⟩
  · rw [hSame]
    exact hGood
  rw [hRead]
  have hBuffer : e.console.buffered = [] := if_pos hEmpty
  have hChar :
      e.Clean →
        Console.buffered
          { e.console with
            incoming := ch
            keyboard := keyboard
            readSignals := e.console.readSignals + 1 } =
          [ch] := by
    intro hClean
    refine if_neg ?_
    rintro rfl
    refine hClean ?_
    rw [← hGood.order hClean, hKeyboard]
    simp
  refine ⟨hGood.writes, ?_, ?_, hGood.quits, hGood.running⟩
  · intro hClean
    have hReads := hGood.reads hClean
    rw [hBuffer, List.length_nil] at hReads
    rw [hChar hClean, List.length_singleton]
    show e.readAvail + 1 + e.pc.taken = 1
    omega
  · intro hClean
    have hOrder := hGood.order hClean
    rw [hBuffer, hKeyboard, List.append_nil] at hOrder
    rw [hChar hClean, ← List.append_cons]
    exact hOrder

/- The end of a write gives its unit to the thread. -/
theorem Good.finishWrite
    {e : Echo}
    (hGood : e.Good)
    (hBusy : e.console.putBusy = true) :
    e.finishWrite.Good := by
  refine ⟨?_, hGood.reads, hGood.order, hGood.quits,
    hGood.running⟩
  have hWrites := hGood.writes
  rw [if_pos hBusy] at hWrites
  exact hWrites

end Echo

end Nachos

------------------------------------
-- Handlers of the Test
------------------------------------

namespace Nachos

namespace EchoSim

variable {pending : List (PendingInterrupt ConsoleHandler)}
variable {toOccur : PendingInterrupt ConsoleHandler}
variable {s : EchoSim}

/- What holds between the steps of the machine. -/
structure Sound
    (s : EchoSim) : Prop where
  wired : s.Wired
  good : s.rest.Good

theorem Wired.busy_of_mem
    (hWired : Wired s)
    {p : PendingInterrupt ConsoleHandler}
    (hMem : p ∈ s.interrupt.pending)
    (hHandler : p.handler = .writeDone) :
    s.rest.console.putBusy = true := by
  have hCount : 0 <
      s.interrupt.pending.countP fun p =>
        p.handler = .writeDone :=
    List.countP_pos_iff.mpr ⟨p, hMem, by simpa using hHandler⟩
  rw [hWired.writes] at hCount
  by_contra hIdle
  rw [if_neg hIdle] at hCount
  exact absurd hCount (by omega)

theorem Sound.later
    (hSound : Sound s)
    {i : Interrupt ConsoleHandler}
    (hPending : i.pending = s.interrupt.pending)
    (hClock :
      s.interrupt.stats.totalTicks ≤ i.stats.totalTicks) :
    Sound { s with interrupt := i } := by
  refine ⟨⟨?_, ?_, ?_, ?_, ?_⟩, hSound.good⟩ <;>
    dsimp only <;> rw [hPending]
  · exact hSound.wired.sorted
  · intro p hp
    have hNear := hSound.wired.near p hp
    omega
  · exact hSound.wired.devices
  · exact hSound.wired.polls
  · exact hSound.wired.writes

theorem Sound.putBack
    (hSound : Sound s)
    (hPending : s.interrupt.pending = toOccur :: pending) :
    Sound (s.setPending
      (PriorityList.insert (·.when) toOccur pending)) := by
  have hPerm :
      (PriorityList.insert (·.when) toOccur pending).Perm
        s.interrupt.pending := by
    rw [hPending]
    exact PriorityList.perm_insert _ _ _
  have hSorted := hSound.wired.sorted
  rw [hPending] at hSorted
  refine ⟨⟨?_, ?_, ?_, ?_, ?_⟩, hSound.good⟩
  · exact PriorityList.sorted_insert _
      (List.pairwise_cons.mp hSorted).2
  · intro p hp
    exact hSound.wired.near p (hPerm.mem_iff.mp hp)
  · intro p hp
    exact hSound.wired.devices p (hPerm.mem_iff.mp hp)
  · exact (hPerm.countP_eq _).trans hSound.wired.polls
  · exact (hPerm.countP_eq _).trans hSound.wired.writes

/- A poll is replaced by the next one. -/
theorem Sound.fire_readPoll
    {s t : EchoSim}
    (hSound : Sound s)
    (hPending : s.interrupt.pending = toOccur :: pending)
    (hHandler : toOccur.handler = .readPoll)
    (hFire :
      (s.setPending pending).fire echoDevice toOccur =
        some t) :
    Sound t := by
  rw [EchoSim.fire_readPoll hHandler] at hFire
  cases hFire
  rcases hSound.wired with
    ⟨hSorted, hNear, hDevices, hPolls, hWrites⟩
  rw [hPending] at hSorted hNear hDevices hPolls hWrites
  rw [List.countP_cons_of_pos (by simpa using hHandler)]
    at hPolls
  rw [List.countP_cons_of_neg (by simp [hHandler])] at hWrites
  have hConsole :
      s.rest.checkCharAvail.console.putBusy =
        s.rest.console.putBusy := by
    rcases Echo.checkCharAvail_cases s.rest with
      ⟨hSame, _⟩ | ⟨_, _, _, _, hRead⟩
    · rw [hSame]
    · rw [hRead]
  refine ⟨⟨?_, ?_, ?_, ?_, ?_⟩, hSound.good.checkCharAvail⟩
  · exact PriorityList.sorted_insert _
      (List.pairwise_cons.mp hSorted).2
  · intro p hp
    rcases PriorityList.mem_insert.mp hp with rfl | hp
    · exact le_rfl
    · exact hNear p (List.mem_cons_of_mem _ hp)
  · intro p hp
    rcases PriorityList.mem_insert.mp hp with rfl | hp
    · exact IntType.noConfusion
    · exact hDevices p (List.mem_cons_of_mem _ hp)
  · rw [(PriorityList.perm_insert _ _ _).countP_eq,
      List.countP_cons_of_pos (by simp)]
    exact hPolls
  · rw [(PriorityList.perm_insert _ _ _).countP_eq,
      List.countP_cons_of_neg (by simp)]
    rw [← hConsole] at hWrites
    exact hWrites

/- The end of a write leaves the display idle. -/
theorem Sound.fire_writeDone
    {s t : EchoSim}
    (hSound : Sound s)
    (hPending : s.interrupt.pending = toOccur :: pending)
    (hHandler : toOccur.handler = .writeDone)
    (hFire :
      (s.setPending pending).fire echoDevice toOccur =
        some t) :
    Sound t := by
  have hBusy := hSound.wired.busy_of_mem
    (p := toOccur) (by rw [hPending]; simp) hHandler
  rw [EchoSim.fire_writeDone hHandler] at hFire
  cases hFire
  rcases hSound.wired with
    ⟨hSorted, hNear, hDevices, hPolls, hWrites⟩
  rw [hPending] at hSorted hNear hDevices hPolls hWrites
  rw [List.countP_cons_of_neg (by simp [hHandler])] at hPolls
  rw [List.countP_cons_of_pos (by simpa using hHandler),
    if_pos hBusy] at hWrites
  refine ⟨⟨?_, ?_, ?_, hPolls, ?_⟩,
    hSound.good.finishWrite hBusy⟩
  · exact (List.pairwise_cons.mp hSorted).2
  · exact fun p hp => hNear p (List.mem_cons_of_mem _ hp)
  · exact fun p hp => hDevices p (List.mem_cons_of_mem _ hp)
  · exact Nat.succ.inj hWrites

/- Whole handlers keep it. -/
theorem steady_sound :
    Sim.Steady echoDevice Sound where
  flags := fun s _ _ _ _ hSound =>
    hSound.later rfl le_rfl
  advance := fun s hSound => by
    rcases s.interrupt.advance_eq with ⟨stats, hLater, hEq⟩
    rw [hEq]
    exact hSound.later rfl hLater.le
  advanceTo := fun s when hSound hLater =>
    hSound.later rfl hLater
  putBack := fun s toOccur pending hSound hPending =>
    hSound.putBack hPending
  fire := fun s toOccur pending t hSound hPending _ hFire => by
    cases hHandler : toOccur.handler with
    | readPoll =>
        exact hSound.fire_readPoll hPending hHandler hFire
    | writeDone =>
        exact hSound.fire_writeDone hPending hHandler hFire

end EchoSim

end Nachos
