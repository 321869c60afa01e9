import Nachos.Lib.PriorityList

/-
  The simulated interrupt hardware and its clock.

  The rest of the machine is a parameter.  An interrupt
  handler is given by the calls it makes, which may depend on
  the whole state when it is invoked.

  A yield at the end of `oneTick` is left to the caller,
  since it switches to other threads.

  Main declarations:
    * `Interrupt`
    * `Sim.idle`
    * `Interrupt.setYieldOnReturn_cases`
    * `Interrupt.advance_eq`
    * `Sim.perform_cases`
-/

------------------------------------
-- The Interrupt Controller
------------------------------------

namespace Nachos

inductive IntStatus where
  | off
  | on
  deriving DecidableEq

inductive MachineStatus where
  | idle
  | system
  | user
  deriving DecidableEq

inductive IntType where
  | timer
  | disk
  | consoleWrite
  | consoleRead
  | elevator
  | networkSend
  | networkRecv
  deriving DecidableEq

abbrev UserTick : Int := 1

abbrev SystemTick : Int := 10

structure Statistics where
  totalTicks : Int
  idleTicks : Int
  systemTicks : Int
  userTicks : Int

/-
  An interrupt to occur at a later time.  The handler is
  taken together with its argument; the serial number tells
  apart the objects that are allocated for interrupts.
-/
structure PendingInterrupt (H : Type) where
  handler : H
  when : Int
  type : IntType
  serial : Nat

/-
  The controller with the clock.  The last two fields are
  history: all interrupts scheduled so far, and those that
  have fired with the time at which they did.
-/
structure Interrupt (H : Type) where
  level : IntStatus
  pending : List (PendingInterrupt H)
  inHandler : Bool
  yieldOnReturn : Bool
  status : MachineStatus
  stats : Statistics
  scheduled : List (PendingInterrupt H)
  fired : List (PendingInterrupt H × Int)

namespace Interrupt

variable {H : Type}

/- Interrupts start disabled with none pending. -/
def create : Interrupt H where
  level := .off
  pending := []
  inHandler := false
  yieldOnReturn := false
  status := .system
  stats := ⟨0, 0, 0, 0⟩
  scheduled := []
  fired := []

def changeLevel
    (i : Interrupt H)
    (now : IntStatus) :
    Interrupt H :=
  { i with level := now }

/-
  Change the level.  Handlers are not allowed to enable
  interrupts.  The result says whether the clock is to be
  advanced because interrupts were turned on.
-/
def setLevel
    (i : Interrupt H)
    (now : IntStatus) :
    Option (Bool × Interrupt H) :=
  if now = .off ∨ i.inHandler = false then
    some (now = .on ∧ i.level = .off, i.changeLevel now)
  else
    none

/- Put an interrupt that occurs later on the sorted list. -/
def schedule
    (i : Interrupt H)
    (handler : H)
    (fromNow : Int)
    (type : IntType) :
    Option (Interrupt H) :=
  let toOccur : PendingInterrupt H :=
    { handler := handler
      when := i.stats.totalTicks + fromNow
      type := type
      serial := i.scheduled.length }
  if fromNow > 0 then
    some
      { i with
        pending :=
          PriorityList.insert (·.when) toOccur i.pending
        scheduled := i.scheduled ++ [toOccur] }
  else
    none

/- All that scheduling does. -/
theorem schedule_cases
    {i j : Interrupt H}
    {handler : H}
    {fromNow : Int}
    {type : IntType}
    (hRun : i.schedule handler fromNow type = some j) :
    0 < fromNow ∧
    ∃ toOccur : PendingInterrupt H,
      toOccur.handler = handler ∧
      toOccur.when = i.stats.totalTicks + fromNow ∧
      toOccur.type = type ∧
      toOccur.serial = i.scheduled.length ∧
      j = { i with
        pending :=
          PriorityList.insert (·.when) toOccur i.pending
        scheduled := i.scheduled ++ [toOccur] } := by
  unfold schedule at hRun
  split at hRun
  · rename_i hLater
    cases hRun
    exact ⟨hLater, _, rfl, rfl, rfl, rfl, rfl⟩
  · cases hRun

/- Ask for a context switch when the handler returns. -/
def setYieldOnReturn
    (i : Interrupt H) :
    Option (Interrupt H) :=
  if i.inHandler then
    some { i with yieldOnReturn := true }
  else
    none

/- Only the flag changes. -/
theorem setYieldOnReturn_cases
    {i j : Interrupt H}
    (hRun : i.setYieldOnReturn = some j) :
    i.inHandler = true ∧
      j = { i with yieldOnReturn := true } := by
  unfold setYieldOnReturn at hRun
  split at hRun
  · rename_i hInside
    exact ⟨hInside, (Option.some.inj hRun).symm⟩
  · cases hRun

/- Advance the clock for one instruction or kernel step. -/
def advance
    (i : Interrupt H) :
    Interrupt H :=
  match i.status with
  | .system =>
      { i with
        stats :=
          { i.stats with
            totalTicks := i.stats.totalTicks + SystemTick
            systemTicks :=
              i.stats.systemTicks + SystemTick } }
  | _ =>
      { i with
        stats :=
          { i.stats with
            totalTicks := i.stats.totalTicks + UserTick
            userTicks := i.stats.userTicks + UserTick } }

/- Only the statistics change, and time passes. -/
theorem advance_eq
    (i : Interrupt H) :
    ∃ stats : Statistics,
      i.stats.totalTicks < stats.totalTicks ∧
      i.advance = { i with stats := stats } := by
  unfold advance
  split
  · refine ⟨_, ?_, rfl⟩
    exact Int.lt_add_of_pos_right _ (by decide)
  · refine ⟨_, ?_, rfl⟩
    exact Int.lt_add_of_pos_right _ (by decide)

/- With nothing to run, move the clock to an interrupt. -/
def advanceTo
    (i : Interrupt H)
    (when : Int) :
    Interrupt H :=
  { i with
    stats :=
      { i.stats with
        totalTicks := when
        idleTicks :=
          i.stats.idleTicks +
            (when - i.stats.totalTicks) } }

end Interrupt

end Nachos

------------------------------------
-- Handlers
------------------------------------

namespace Nachos

/-
  What an interrupt handler can do: use the controller, or
  operate on the rest of the machine.
-/
inductive HandlerCall (H ω : Type) where
  | schedule (handler : H) (fromNow : Int) (type : IntType)
  | yieldOnReturn
  | device (op : ω)

/-
  The rest of the machine: how the delayed load of the CPU is
  flushed, what the operations of handlers do, and the calls
  that a handler makes.
-/
structure Device (H κ ω : Type) where
  delayedLoad : κ → κ
  exec : ω → κ → Option κ
  body : H → Interrupt H → κ → List (HandlerCall H ω)

structure Sim (H κ : Type) where
  interrupt : Interrupt H
  rest : κ

namespace Sim

variable {H κ ω : Type}
variable (dev : Device H κ ω)

def perform
    (s : Sim H κ) :
    HandlerCall H ω → Option (Sim H κ)
| .schedule handler fromNow type => do
    let i ← s.interrupt.schedule handler fromNow type
    some { s with interrupt := i }
| .yieldOnReturn => do
    let i ← s.interrupt.setYieldOnReturn
    some { s with interrupt := i }
| .device op => do
    let rest ← dev.exec op s.rest
    some { s with rest := rest }

/- All that a call of a handler does. -/
theorem perform_cases
    {dev : Device H κ ω}
    {s t : Sim H κ}
    {call : HandlerCall H ω}
    (hRun : s.perform dev call = some t) :
    (∃ handler fromNow type i,
      call = .schedule handler fromNow type ∧
      s.interrupt.schedule handler fromNow type = some i ∧
      t = ⟨i, s.rest⟩) ∨
    (call = .yieldOnReturn ∧
      s.interrupt.inHandler = true ∧
      t = ⟨{ s.interrupt with yieldOnReturn := true },
        s.rest⟩) ∨
    ∃ op rest,
      call = .device op ∧
      dev.exec op s.rest = some rest ∧
      t = ⟨s.interrupt, rest⟩ := by
  cases call with
  | schedule handler fromNow type =>
      rcases Option.bind_eq_some_iff.mp hRun with
        ⟨i, hSchedule, hEq⟩
      cases hEq
      exact Or.inl
        ⟨handler, fromNow, type, i, rfl, hSchedule, rfl⟩
  | yieldOnReturn =>
      rcases Option.bind_eq_some_iff.mp hRun with
        ⟨i, hYield, hEq⟩
      cases hEq
      rcases Interrupt.setYieldOnReturn_cases hYield with
        ⟨hInside, rfl⟩
      exact Or.inr (Or.inl ⟨rfl, hInside, rfl⟩)
  | device op =>
      rcases Option.bind_eq_some_iff.mp hRun with
        ⟨rest, hExec, hEq⟩
      cases hEq
      exact Or.inr (Or.inr ⟨op, rest, rfl, hExec, rfl⟩)

/- Enter a handler: whatever ran, the kernel runs now. -/
def enter
    (s : Sim H κ)
    (toOccur : PendingInterrupt H) :
    Sim H κ where
  interrupt :=
    { s.interrupt with
      inHandler := true
      status := .system
      fired :=
        s.interrupt.fired ++
          [(toOccur, s.interrupt.stats.totalTicks)] }
  rest := dev.delayedLoad s.rest

/- Leave a handler and restore the machine status. -/
def leave
    (s : Sim H κ)
    (old : MachineStatus) :
    Sim H κ :=
  { s with
    interrupt :=
      { s.interrupt with
        status := old
        inHandler := false } }

/- Call the handler of an interrupt. -/
def fire
    (s : Sim H κ)
    (toOccur : PendingInterrupt H) :
    Option (Sim H κ) := do
  let entered := s.enter dev toOccur
  let calls :=
    dev.body toOccur.handler entered.interrupt entered.rest
  let s' ← calls.foldlM (perform dev) entered
  some (s'.leave s.interrupt.status)

def setPending
    (s : Sim H κ)
    (pending : List (PendingInterrupt H)) :
    Sim H κ :=
  { s with interrupt := { s.interrupt with pending := pending } }

/-
  Fire the first pending interrupt if it is due.  With
  `advanceClock` there is nothing else to do, and the clock
  moves to that interrupt; but a lone timer is not worth
  waiting for.
-/
def checkIfDue
    (s : Sim H κ)
    (advanceClock : Bool) :
    Option (Bool × Sim H κ) :=
  if s.interrupt.level = .off then
    match s.interrupt.pending with
    | [] => some (false, s)
    | toOccur :: pending =>
        let putBack :=
          PriorityList.insert (·.when) toOccur pending
        let late :=
          toOccur.when > s.interrupt.stats.totalTicks
        if late ∧ advanceClock = false then
          some (false, s.setPending putBack)
        else
          let s :=
            if late then
              { s with
                interrupt :=
                  s.interrupt.advanceTo toOccur.when }
            else
              s
          if s.interrupt.status = .idle ∧
              toOccur.type = .timer ∧ pending = [] then
            some (false, s.setPending putBack)
          else do
            let s ← (s.setPending pending).fire dev toOccur
            some (true, s)
  else
    none

/- The loop `while (CheckIfDue(FALSE))`. -/
def drain :
    Nat → Sim H κ → Option (Sim H κ)
| 0, _ => none
| fuel + 1, s => do
    let (fired, s) ← s.checkIfDue dev false
    if fired then
      drain fuel s
    else
      some s

/- Rounds that are enough: one for each interrupt. -/
def rounds
    (s : Sim H κ) :
    Nat :=
  s.interrupt.pending.length + 1

end Sim

end Nachos

------------------------------------
-- Ticks and Idling
------------------------------------

namespace Nachos

namespace Sim

variable {H κ ω : Type}
variable (dev : Device H κ ω)

/-
  Advance the clock and call the handlers that are due.  If
  one of them asked for a context switch, the result is the
  status to be restored after the current thread has yielded.
-/
def oneTick
    (s : Sim H κ) :
    Option (Option MachineStatus × Sim H κ) := do
  let old := s.interrupt.status
  let s : Sim H κ :=
    { s with
      interrupt := s.interrupt.advance.changeLevel .off }
  let s ← drain dev s.rounds s
  let i := s.interrupt.changeLevel .on
  if i.yieldOnReturn then
    some (some old,
      { s with
        interrupt :=
          { i with
            yieldOnReturn := false
            status := .system } })
  else
    some (none, { s with interrupt := i })

/-
  Nothing is ready: advance the clock until an interrupt
  occurs.  The result is false when there is nothing to wait
  for, and the machine halts.
-/
def idle
    (s : Sim H κ) :
    Option (Bool × Sim H κ) := do
  let s : Sim H κ :=
    { s with
      interrupt := { s.interrupt with status := .idle } }
  let (fired, s) ← s.checkIfDue dev true
  if fired then
    let s ← drain dev s.rounds s
    some (true,
      { s with
        interrupt :=
          { s.interrupt with
            yieldOnReturn := false
            status := .system } })
  else
    some (false, s)

end Sim

end Nachos
