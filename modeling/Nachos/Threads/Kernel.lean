import Nachos.Lib.CInt
import Nachos.Machine.Stable
import Nachos.Threads.ThreadTable

/-
  Threads, the scheduler and semaphores.

  A thread that is inside of a primitive has frames: what is
  left to be done before the primitive returns.  One step
  carries out one frame of the current thread, so that other
  threads and handlers run in between exactly where the
  kernel lets them: in `OneTick`, and in `Sleep` while no
  thread is ready.

  A step that would fail an assertion, overflow, or use a
  number or an object that does not exist gives `none`.

  Main declarations:
    * `Kernel`
    * `Sim.call`
-/

------------------------------------
-- The State
------------------------------------

namespace Nachos

inductive ThreadStatus where
  | justCreated
  | running
  | ready
  | blocked
  deriving DecidableEq

/-
  What is left of a primitive: a call of `SetLevel`, of
  `OneTick` or of `Yield`; restoring the machine status after
  a yield in `OneTick`; the part of `Scheduler::Run` behind
  `SWITCH`; and the loop of `P` on a semaphore.
-/
inductive Frame where
  | setLevel (now : IntStatus)
  | oneTick
  | yield
  | restoreStatus (old : MachineStatus)
  | afterSwitch
  | pLoop (semaphore : Nat)
  deriving DecidableEq

/-
  The last two fields are history: whether the thread has
  called `Finish`, and how many times it was deleted.
-/
structure Thread where
  status : ThreadStatus
  threadID : Int
  frames : List Frame
  finished : Bool
  deletions : Nat

/-
  The last four fields are history: the initial value, the
  calls of `V`, the calls of `P` that took their unit, and
  the threads that `V` removed from the queue and that have
  not looked at the value since.
-/
structure Semaphore where
  value : Int
  queue : List Nat
  initialValue : Int
  vCalls : Nat
  pCalls : Nat
  woken : List Nat

/-
  Threads and semaphores are numbered in the order of their
  creation.  `sleeping` says that the current thread is in
  the loop of `Sleep`.  The last field is history: whether
  some thread came back from `SWITCH` into `Scheduler::Run`
  since `Finish` was last called.
-/
structure Kernel where
  thread : Nat → Thread
  numThreads : Nat
  semaphore : Nat → Semaphore
  numSemaphores : Nat
  readyList : List Nat
  currentThread : Nat
  threadToBeDestroyed : Option Nat
  threadIDs : ThreadIDs
  sleeping : Bool
  halted : Bool
  resumedSinceFinish : Bool

------------------------------------
-- Threads and the Scheduler
------------------------------------

/- The constructor of a thread. -/
def Thread.create
    (threadID : Int) :
    Thread where
  status := .justCreated
  threadID := threadID
  frames := []
  finished := false
  deletions := 0

/- The constructor of a semaphore. -/
def Semaphore.create
    (initialValue : Int) :
    Semaphore where
  value := initialValue
  queue := []
  initialValue := initialValue
  vCalls := 0
  pCalls := 0
  woken := []

namespace Kernel

def setThread
    (k : Kernel)
    (t : Nat)
    (thread : Thread) :
    Kernel :=
  { k with thread := Function.update k.thread t thread }

def setSemaphore
    (k : Kernel)
    (sem : Nat)
    (semaphore : Semaphore) :
    Kernel :=
  { k with
    semaphore := Function.update k.semaphore sem semaphore }

def setStatus
    (k : Kernel)
    (t : Nat)
    (status : ThreadStatus) :
    Kernel :=
  k.setThread t { k.thread t with status := status }

def setFrames
    (k : Kernel)
    (t : Nat)
    (frames : List Frame) :
    Kernel :=
  k.setThread t { k.thread t with frames := frames }

/- The current thread has more to do before it returns. -/
def push
    (k : Kernel)
    (frames : List Frame) :
    Kernel :=
  k.setFrames k.currentThread
    (frames ++ (k.thread k.currentThread).frames)

def newThread
    (k : Kernel) :
    Kernel :=
  let (threadID, threadIDs) := allocatedThreadID k.threadIDs
  { k.setThread k.numThreads (Thread.create threadID) with
    numThreads := k.numThreads + 1
    threadIDs := threadIDs }

def newSemaphore
    (k : Kernel)
    (initialValue : Int) :
    Kernel :=
  { k.setSemaphore k.numSemaphores
      (Semaphore.create initialValue) with
    numSemaphores := k.numSemaphores + 1 }

/- Mark a thread as ready and put it on the ready list. -/
def readyToRun
    (k : Kernel)
    (t : Nat) :
    Kernel :=
  { k.setStatus t .ready with
    readyList := k.readyList ++ [t] }

/-
  Dispatch the next thread.  What the old thread does after
  `SWITCH` is left until it is dispatched again.
-/
def run
    (k : Kernel)
    (next : Nat) :
    Kernel :=
  { (k.push [.afterSwitch]).setStatus next .running with
    currentThread := next
    sleeping := false }

/- The stack of a new thread begins in `ThreadRoot`. -/
def fork
    (k : Kernel)
    (t : Nat) :
    Kernel :=
  (k.setFrames t [.setLevel .on]).readyToRun t

/- Switch to the next ready thread, if there is one. -/
def yield
    (k : Kernel)
    (old : IntStatus) :
    Kernel :=
  let k := k.push [.setLevel old]
  match k.readyList with
  | [] => k
  | next :: readyList =>
      ({ k with readyList := readyList }.readyToRun
        k.currentThread).run next

/- The current thread enters the loop of `Sleep`. -/
def block
    (k : Kernel) :
    Kernel :=
  { k.setStatus k.currentThread .blocked with
    sleeping := true }

/- The current thread finishes and sleeps. -/
def finish
    (k : Kernel) :
    Kernel :=
  ({ k.setThread k.currentThread
      { k.thread k.currentThread with finished := true } with
    threadToBeDestroyed := some k.currentThread
    resumedSinceFinish := false } : Kernel).block

/- The destructor of a thread. -/
def delete
    (k : Kernel)
    (t : Nat) :
    Option Kernel :=
  if t ≠ k.currentThread then do
    let threadIDs ←
      releaseThreadID k.threadIDs (k.thread t).threadID
    some
      { k.setThread t
          { k.thread t with
            deletions := (k.thread t).deletions + 1 } with
        threadIDs := threadIDs }
  else
    none

/- The part of `Scheduler::Run` behind `SWITCH`. -/
def afterSwitch
    (k : Kernel) :
    Option Kernel :=
  match k.threadToBeDestroyed with
  | none => some { k with resumedSinceFinish := true }
  | some t => do
      let k ← k.delete t
      some
        { k with
          threadToBeDestroyed := none
          resumedSinceFinish := true }

end Kernel

end Nachos

------------------------------------
-- Semaphores
------------------------------------

namespace Nachos

namespace Kernel

/- Increment the value, waking up a waiter if there is one. -/
def v
    (k : Kernel)
    (sem : Nat) :
    Option Kernel := do
  let semaphore := k.semaphore sem
  let value ← CInt.checked (semaphore.value + 1)
  match semaphore.queue with
  | [] =>
      some (k.setSemaphore sem
        { semaphore with
          value := value
          vCalls := semaphore.vCalls + 1 })
  | t :: queue =>
      some ((k.readyToRun t).setSemaphore sem
        { semaphore with
          value := value
          queue := queue
          vCalls := semaphore.vCalls + 1
          woken := semaphore.woken ++ [t] })

/- The current thread waits for a semaphore. -/
def wait
    (k : Kernel)
    (sem : Nat) :
    Kernel :=
  let semaphore := k.semaphore sem
  ((k.setSemaphore sem
    { semaphore with
      queue := semaphore.queue ++ [k.currentThread]
      woken := semaphore.woken.erase k.currentThread }).push
    [.pLoop sem]).block

/- The current thread takes a unit. -/
def take
    (k : Kernel)
    (sem : Nat) :
    Option Kernel := do
  let semaphore := k.semaphore sem
  let value ← CInt.checked (semaphore.value - 1)
  some (k.setSemaphore sem
    { semaphore with
      value := value
      pCalls := semaphore.pCalls + 1
      woken := semaphore.woken.erase k.currentThread })

/- Nothing exists before `Initialize` makes the main thread. -/
def empty : Kernel where
  thread := fun _ => Thread.create 0
  numThreads := 0
  semaphore := fun _ => Semaphore.create 0
  numSemaphores := 0
  readyList := []
  currentThread := 0
  threadToBeDestroyed := none
  threadIDs := fun _ => 0
  sleeping := false
  halted := false
  resumedSinceFinish := true

/- The main thread runs and is about to enable interrupts. -/
def create : Kernel :=
  (empty.newThread.setStatus 0 .running).push [.setLevel .on]

end Kernel

end Nachos

------------------------------------
-- Steps of the Current Thread
------------------------------------

namespace Nachos

variable {H : Type}

/- Handlers may call `V`; what else they do is arbitrary. -/
def kernelDevice
    (body :
      H → Interrupt H → Kernel → List (HandlerCall H Nat)) :
    Device H Kernel Nat where
  delayedLoad := id
  exec := fun sem k =>
    if sem < k.numSemaphores then k.v sem else none
  body := body

namespace Sim

def mapRest
    (s : Sim H Kernel)
    (f : Kernel → Kernel) :
    Sim H Kernel :=
  { s with rest := f s.rest }

/- Calling `OneTick` is left for the next step. -/
def setLevel
    (s : Sim H Kernel)
    (now : IntStatus) :
    Option (Sim H Kernel) := do
  let (tick, i) ← s.interrupt.setLevel now
  if tick then
    some ⟨i, s.rest.push [.oneTick]⟩
  else
    some ⟨i, s.rest⟩

def disable
    (s : Sim H Kernel) :
    Sim H Kernel :=
  { s with interrupt := s.interrupt.changeLevel .off }

/- Enter `Sleep`, which asserts that interrupts are off. -/
def enterSleep
    (s : Sim H Kernel)
    (f : Kernel → Kernel) :
    Option (Sim H Kernel) :=
  if s.interrupt.level = .off then
    some (s.mapRest f)
  else
    none

/- One round of the loop of `Sleep`. -/
def sleepLoop
    (dev : Device H Kernel Nat)
    (s : Sim H Kernel) :
    Option (Sim H Kernel) :=
  match s.rest.readyList with
  | next :: readyList =>
      some (s.mapRest fun k =>
        { k with readyList := readyList }.run next)
  | [] => do
      let (fired, s) ← s.idle dev
      if fired then
        some s
      else
        some (s.mapRest fun k => { k with halted := true })

/- Test the value in the loop of `P`. -/
def pLoop
    (s : Sim H Kernel)
    (sem : Nat) :
    Option (Sim H Kernel) :=
  if sem < s.rest.numSemaphores then
    if (s.rest.semaphore sem).value = 0 then
      s.enterSleep (·.wait sem)
    else do
      let k ← s.rest.take sem
      some { s with rest := k }
  else
    none

/- Carry out a frame of the current thread. -/
def resume
    (dev : Device H Kernel Nat)
    (s : Sim H Kernel) :
    Frame → Option (Sim H Kernel)
| .setLevel now => s.setLevel now
| .oneTick => do
    let (yield, s) ← s.oneTick dev
    match yield with
    | some old =>
        some (s.mapRest (·.push [.yield, .restoreStatus old]))
    | none => some s
| .yield =>
    some (s.disable.mapRest (·.yield s.interrupt.level))
| .restoreStatus old =>
    some
      { s with
        interrupt := { s.interrupt with status := old } }
| .afterSwitch => do
    let k ← s.rest.afterSwitch
    some { s with rest := k }
| .pLoop sem => s.pLoop sem

/- The primitives that the code of a thread can call. -/
inductive KernelCall (H : Type) where
  | newThread
  | newSemaphore (initialValue : Int)
  | fork (t : Nat)
  | yield
  | sleep
  | finish
  | p (sem : Nat)
  | v (sem : Nat)
  | setLevel (now : IntStatus)
  | oneTick
  | setStatus (status : MachineStatus)
  | schedule (handler : H) (fromNow : Int) (type : IntType)

def call
    (s : Sim H Kernel) :
    KernelCall H → Option (Sim H Kernel)
| .newThread => some (s.mapRest (·.newThread))
| .newSemaphore initialValue =>
    some (s.mapRest (·.newSemaphore initialValue))
| .fork t =>
    some (s.disable.mapRest fun k =>
      (k.fork t).push [.setLevel s.interrupt.level])
| .yield => some (s.mapRest (·.push [.yield]))
| .sleep => s.enterSleep (·.block)
| .finish => s.disable.enterSleep (·.finish)
| .p sem =>
    some (s.disable.mapRest
      (·.push [.pLoop sem, .setLevel s.interrupt.level]))
| .v sem => do
    let k ← s.rest.v sem
    some
      { s.disable with
        rest := k.push [.setLevel s.interrupt.level] }
| .setLevel now => s.setLevel now
| .oneTick => some (s.mapRest (·.push [.oneTick]))
| .setStatus status =>
    some
      { s with
        interrupt := { s.interrupt with status := status } }
| .schedule handler fromNow type => do
    let i ← s.interrupt.schedule handler fromNow type
    some { s with interrupt := i }

/- The current thread goes on with what it is in. -/
def advance
    (dev : Device H Kernel Nat)
    (s : Sim H Kernel) :
    Option (Sim H Kernel) :=
  if s.rest.halted then
    none
  else if s.rest.sleeping then
    s.sleepLoop dev
  else
    match (s.rest.thread s.rest.currentThread).frames with
    | [] => none
    | frame :: frames =>
        (s.mapRest fun k =>
          k.setFrames k.currentThread frames).resume dev frame

end Sim

end Nachos

------------------------------------
-- Runs
------------------------------------

namespace Nachos

variable {H : Type}

/- No primitive is in progress in the current thread. -/
def Kernel.Outside
    (k : Kernel) : Prop :=
  k.sleeping = false ∧
    (k.thread k.currentThread).frames = []

instance
    (k : Kernel) :
    Decidable k.Outside := by
  unfold Kernel.Outside
  infer_instance

namespace Sim

/- Calls are made on existing objects. -/
def KernelCall.InRange
    (k : Kernel) :
    KernelCall H → Prop
| .fork t =>
    t < k.numThreads ∧ (k.thread t).status = .justCreated
| .p sem => sem < k.numSemaphores
| .v sem => sem < k.numSemaphores
| _ => True

instance
    (k : Kernel)
    (c : KernelCall H) :
    Decidable (c.InRange k) := by
  cases c <;> unfold KernelCall.InRange <;> infer_instance

inductive KernelAction (H : Type) where
  | call (c : KernelCall H)
  | advance

/- Calls are made outside of primitives, if they may be. -/
def KernelAllowed
    (mayCall : Kernel → KernelCall H → Prop)
    (s : Sim H Kernel) :
    KernelAction H → Prop
| .call c =>
    s.rest.Outside ∧ c.InRange s.rest ∧ mayCall s.rest c
| .advance => True

instance
    {mayCall : Kernel → KernelCall H → Prop}
    [∀ k c, Decidable (mayCall k c)]
    (s : Sim H Kernel)
    (a : KernelAction H) :
    Decidable (KernelAllowed mayCall s a) := by
  cases a <;> unfold KernelAllowed <;> infer_instance

def kernelStep
    (dev : Device H Kernel Nat)
    (s : Sim H Kernel) :
    KernelAction H → Option (Sim H Kernel)
| .call c => s.call c
| .advance => s.advance dev

/- At the start interrupts may already be pending. -/
def kernel
    (dev : Device H Kernel Nat)
    (mayCall : Kernel → KernelCall H → Prop) :
    Transition.System (Sim H Kernel) (KernelAction H) where
  init := fun s =>
    ∃ pending,
      s = ⟨{ Interrupt.create with pending := pending },
        Kernel.create⟩
  allowed := KernelAllowed mayCall
  step := kernelStep dev

instance
    {dev : Device H Kernel Nat}
    {mayCall : Kernel → KernelCall H → Prop}
    [∀ k c, Decidable (mayCall k c)]
    (s : Sim H Kernel)
    (a : KernelAction H) :
    Decidable ((kernel dev mayCall).allowed s a) :=
  inferInstanceAs (Decidable (KernelAllowed mayCall s a))

/- No interrupt is pending and no handler does anything. -/
def quiet :
    Sim Unit Kernel :=
  ⟨Interrupt.create, Kernel.create⟩

def quietDevice :
    Device Unit Kernel Nat :=
  kernelDevice fun _ _ _ => []

theorem reachable_quiet
    (mayCall : Kernel → KernelCall Unit → Prop) :
    (kernel quietDevice mayCall).Reachable quiet :=
  .of_init ⟨[], rfl⟩

end Sim

end Nachos
