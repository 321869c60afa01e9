import Nachos.Lib.FixedArray
import Nachos.Lib.Transition
import Nachos.Machine.Mips

/-
  User registers across context switches.

  Threads with an address space share one processor.  The
  scheduler saves the registers of the thread that gives it
  up, and restores them together with the page table when the
  thread goes on.

  Main declarations:
    * `Processor.system`
    * `Processor.Resumes`
    * `Processor.step_frame`
    * `Processor.registers_isolated`
-/

------------------------------------
-- Threads and Address Spaces
------------------------------------

namespace Nachos

structure AddrSpace where
  pageTable : Nat → TranslationEntry
  numPages : Word

/-
  The part of a thread that concerns user programs.  A thread
  is `resuming` once it has been started: it goes on behind
  `SWITCH` in `Scheduler::Run`, not in `ThreadRoot`.
-/
structure UserThread where
  userRegisters : Register → Word
  space : Option Nat
  resuming : Bool

/-
  `pageTable` tells to whose table the pointer of the machine
  points.
-/
structure Processor where
  registers : Register → Word
  mainMemory : Nat → Bytes.Byte
  tlb : Option (Fin TLBSize → TranslationEntry)
  pageTable : Option Nat
  pageTableSize : Word
  addrSpace : Nat → AddrSpace
  numSpaces : Nat
  thread : Nat → UserThread
  currentThread : Nat

namespace UserThread

/- Copy all registers of the machine, one after the other. -/
def saveUserState
    (t : UserThread)
    (registers : Register → Word) :
    UserThread :=
  (List.finRange NumTotalRegs).foldl
    (fun t i =>
      { t with
        userRegisters :=
          Function.update t.userRegisters i (registers i) })
    t

/- Copy them back. -/
def restoreUserState
    (t : UserThread)
    (registers : Register → Word) :
    Register → Word :=
  (List.finRange NumTotalRegs).foldl
    (fun registers i =>
      Function.update registers i (t.userRegisters i))
    registers

end UserThread

/- The registers a user program starts with. -/
def AddrSpace.initRegisters
    (space : AddrSpace)
    (registers : Register → Word) :
    Register → Word :=
  let registers :=
    (List.finRange NumTotalRegs).foldl
      (fun registers i => Function.update registers i 0)
      registers
  let registers := Function.update registers PCReg 0
  let registers := Function.update registers NextPCReg 4
  Function.update registers StackReg
    (space.numPages * BitVec.ofNat 32 PageSize - 16)

end Nachos

------------------------------------
-- Switching
------------------------------------

namespace Nachos

namespace Processor

/- The machine as the running thread sees it. -/
def machine
    (p : Processor) :
    Machine where
  registers := p.registers
  mainMemory := p.mainMemory
  tlb := p.tlb
  pageTable := p.pageTable.map fun a =>
    (p.addrSpace a).pageTable
  pageTableSize := p.pageTableSize

/-
  Take over what the machine has done.  Use and dirty bits are
  in the table that the pointer points to.
-/
def setMachine
    (p : Processor)
    (m : Machine) :
    Processor :=
  { p with
    registers := m.registers
    mainMemory := m.mainMemory
    tlb := m.tlb
    addrSpace :=
      match p.pageTable, m.pageTable with
      | some a, some pageTable =>
          Function.update p.addrSpace a
            { p.addrSpace a with pageTable := pageTable }
      | _, _ => p.addrSpace }

def setThread
    (p : Processor)
    (i : Nat)
    (t : UserThread) :
    Processor :=
  { p with thread := Function.update p.thread i t }

/- Save the registers of a user program. -/
def saveState
    (p : Processor) :
    Processor :=
  let t := p.thread p.currentThread
  match t.space with
  | some _ =>
      p.setThread p.currentThread (t.saveUserState p.registers)
  | none => p

/- Tell the machine where to find the page table. -/
def restoreSpace
    (p : Processor)
    (a : Nat) :
    Processor :=
  { p with
    pageTable := some a
    pageTableSize := (p.addrSpace a).numPages }

def restoreState
    (p : Processor) :
    Processor :=
  let t := p.thread p.currentThread
  match t.space with
  | some a =>
      restoreSpace
        { p with registers := t.restoreUserState p.registers }
        a
  | none => p

/-
  `Scheduler::Run`.  A thread that runs for the first time
  begins in `ThreadRoot` and restores nothing.
-/
def runThread
    (p : Processor)
    (nextThread : Nat) :
    Processor :=
  let p := p.saveState
  let p := { p with currentThread := nextThread }
  let t := p.thread nextThread
  if t.resuming then
    p.restoreState
  else
    p.setThread nextThread { t with resuming := true }

/-
  The running thread has loaded a program into a new address
  space and is about to jump to it.
-/
def startProcess
    (p : Processor)
    (space : AddrSpace)
    (mainMemory : Nat → Bytes.Byte) :
    Processor :=
  let a := p.numSpaces
  let p :=
    { p with
      mainMemory := mainMemory
      addrSpace := Function.update p.addrSpace a space
      numSpaces := a + 1 }
  let p := p.setThread p.currentThread
    { p.thread p.currentThread with space := some a }
  restoreSpace
    { p with registers := space.initRegisters p.registers } a

end Processor

end Nachos

------------------------------------
-- Steps
------------------------------------

namespace Nachos

open Transition

/-
  `flush` is the delayed load that an interrupt finishes,
  whichever thread is running.
-/
inductive UserAction where
  | run (nextThread : Nat)
  | startProcess
      (space : AddrSpace)
      (mainMemory : Nat → Bytes.Byte)
  | instruction
  | flush

namespace Processor

/- A user program that traps does not come back. -/
def step
    (p : Processor) :
    UserAction → Option Processor
| .run nextThread => some (p.runThread nextThread)
| .startProcess space mainMemory =>
    some (p.startProcess space mainMemory)
| .instruction =>
    match p.machine.oneInstruction with
    | .ok m => some (p.setMachine m)
    | .error _ => none
| .flush =>
    match p.machine.delayedLoad 0 0 with
    | .ok m => some (p.setMachine m)
    | .error _ => none

/- Only threads with an address space run user programs. -/
def Allowed
    (p : Processor) :
    UserAction → Prop
| .instruction =>
    (p.thread p.currentThread).space.isSome = true
| _ => True

/- At the start one thread is running, without a program. -/
def system
    (mayStep : Processor → Prop) :
    System Processor UserAction where
  init := fun p =>
    (p.thread p.currentThread).resuming = true ∧
      ∀ t, (p.thread t).space = none
  allowed := fun p a => mayStep p ∧ p.Allowed a
  step := step

/-
  The thread that runs in `p` is switched out there and goes
  on in `q`, after others have run for any number of steps.
-/
inductive Resumes
    (p : Processor) :
    Processor → Prop
| atOnce
    {q : Processor} :
    p.step (.run p.currentThread) = some q →
    Resumes p q
| later
    {p₁ p₂ q : Processor}
    {nextThread : Nat}
    {actions : List UserAction} :
    nextThread ≠ p.currentThread →
    p.step (.run nextThread) = some p₁ →
    (system fun p' =>
      p'.currentThread ≠ p.currentThread).Run p₁ actions p₂ →
    p₂.currentThread ≠ p.currentThread →
    p₂.step (.run p.currentThread) = some q →
    Resumes p q

end Processor

end Nachos

------------------------------------
-- What a Step Changes
------------------------------------

namespace Nachos

namespace UserThread

theorem saveUserState_eq
    (t : UserThread)
    (registers : Register → Word) :
    t.saveUserState registers =
      { t with userRegisters := registers } := by
  -- the loop changes one field only
  have hFold : ∀ indices : List Register,
      indices.foldl
          (fun t i =>
            { t with
              userRegisters :=
                Function.update t.userRegisters i
                  (registers i) }) t =
        { t with
          userRegisters :=
            indices.foldl
              (fun a i => Function.update a i (registers i))
              t.userRegisters } := by
    intro indices
    induction indices generalizing t with
    | nil => rfl
    | cons i indices ih =>
        rw [List.foldl_cons, ih, List.foldl_cons]
  rw [saveUserState, hFold, FixedArray.foldl_update_finRange]

theorem restoreUserState_eq
    (t : UserThread)
    (registers : Register → Word) :
    t.restoreUserState registers = t.userRegisters :=
  FixedArray.foldl_update_finRange ..

end UserThread

namespace Processor

variable {p q : Processor}

/- A user thread is saved, and nothing else is. -/
theorem thread_saveState
    (p : Processor)
    (t : Nat) :
    p.saveState.thread t =
      if t = p.currentThread ∧ (p.thread t).space.isSome then
        { p.thread t with userRegisters := p.registers }
      else
        p.thread t := by
  unfold saveState
  dsimp only
  by_cases hEq : t = p.currentThread
  · subst hEq
    cases hSpace : (p.thread p.currentThread).space with
    | none => simp
    | some a =>
        rw [UserThread.saveUserState_eq]
        simp [setThread, hSpace]
  · rw [if_neg fun h => hEq h.1]
    split
    · exact Function.update_of_ne hEq ..
    · rfl

theorem thread_restoreState
    (p : Processor) :
    p.restoreState.thread = p.thread := by
  unfold restoreState
  dsimp only
  split
  · rfl
  · rfl

/- The registers and the space of a thread at a switch. -/
theorem thread_runThread
    (p : Processor)
    (nextThread t : Nat) :
    (p.runThread nextThread).thread t =
      { p.saveState.thread t with
        resuming :=
          (p.saveState.thread t).resuming ||
            decide (t = nextThread) } := by
  unfold runThread
  dsimp only
  by_cases hEq : t = nextThread
  · subst hEq
    split
    · rename_i hResuming
      rw [thread_restoreState]
      simp only [hResuming, Bool.true_or]
      rw [← hResuming]
    · simp [setThread]
  · split
    · rw [thread_restoreState]
      simp [hEq]
    · rw [setThread]
      simp [hEq]

theorem currentThread_runThread
    (p : Processor)
    (nextThread : Nat) :
    (p.runThread nextThread).currentThread = nextThread := by
  unfold runThread restoreState
  dsimp only
  split
  · split
    · rfl
    · rfl
  · rfl

/- The thread that goes on gets its own registers and table. -/
theorem runThread_resuming
    (p : Processor)
    {nextThread a : Nat}
    (hResuming :
      (p.saveState.thread nextThread).resuming = true)
    (hSpace :
      (p.saveState.thread nextThread).space = some a) :
    (p.runThread nextThread).registers =
        (p.saveState.thread nextThread).userRegisters ∧
      (p.runThread nextThread).pageTable = some a ∧
      (p.runThread nextThread).pageTableSize =
        ((p.runThread nextThread).addrSpace a).numPages := by
  unfold runThread
  simp only [hResuming, if_true, restoreState, hSpace,
    restoreSpace, UserThread.restoreUserState_eq, and_self]

/- What a thread keeps while others are running. -/
structure Keeps
    (p q : Processor)
    (t : Nat) : Prop where
  userRegisters :
    (q.thread t).userRegisters = (p.thread t).userRegisters
  space : (q.thread t).space = (p.thread t).space
  resuming :
    (p.thread t).resuming = true →
      (q.thread t).resuming = true

theorem Keeps.of_eq
    {t : Nat}
    (hThread : q.thread t = p.thread t) :
    p.Keeps q t := by
  refine ⟨?_, ?_, ?_⟩
  · rw [hThread]
  · rw [hThread]
  · rw [hThread]
    exact id

theorem Keeps.trans
    {r : Processor}
    {t : Nat}
    (hFirst : p.Keeps q t)
    (hSecond : q.Keeps r t) :
    p.Keeps r t :=
  ⟨hSecond.userRegisters.trans hFirst.userRegisters,
    hSecond.space.trans hFirst.space,
    fun h => hSecond.resuming (hFirst.resuming h)⟩

theorem step_frame
    {t : Nat}
    {a : UserAction}
    (hOther : t ≠ p.currentThread)
    (hStep : p.step a = some q) :
    p.Keeps q t := by
  cases a with
  | run nextThread =>
      cases hStep
      have hSaved : p.saveState.thread t = p.thread t := by
        rw [thread_saveState, if_neg fun h => hOther h.1]
      have hThread := p.thread_runThread nextThread t
      rw [hSaved] at hThread
      refine ⟨?_, ?_, ?_⟩
      · rw [hThread]
      · rw [hThread]
      · intro hResuming
        rw [hThread, hResuming, Bool.true_or]
  | startProcess space mainMemory =>
      cases hStep
      exact Keeps.of_eq (Function.update_of_ne hOther ..)
  | instruction =>
      unfold step at hStep
      dsimp only at hStep
      split at hStep
      · cases hStep
        exact Keeps.of_eq rfl
      · cases hStep
  | flush =>
      unfold step at hStep
      dsimp only at hStep
      split at hStep
      · cases hStep
        exact Keeps.of_eq rfl
      · cases hStep

/- Whoever is running has been started. -/
theorem resuming_step
    {a : UserAction}
    (hCurrent : (p.thread p.currentThread).resuming = true)
    (hStep : p.step a = some q) :
    (q.thread q.currentThread).resuming = true := by
  cases a with
  | run nextThread =>
      cases hStep
      rw [currentThread_runThread, thread_runThread]
      simp
  | startProcess space mainMemory =>
      cases hStep
      have hThread : ((p.startProcess space
          mainMemory).thread p.currentThread).resuming =
            (p.thread p.currentThread).resuming := by
        simp [startProcess, setThread, restoreSpace]
      exact hThread.trans hCurrent
  | instruction =>
      unfold step at hStep
      dsimp only at hStep
      split at hStep
      · cases hStep
        exact hCurrent
      · cases hStep
  | flush =>
      unfold step at hStep
      dsimp only at hStep
      split at hStep
      · cases hStep
        exact hCurrent
      · cases hStep

end Processor

end Nachos

------------------------------------
-- Isolation
------------------------------------

namespace Nachos

open Transition

namespace Processor

variable {p q : Processor}

theorem resuming_of_reachable
    (hReach : (system fun _ => True).Reachable p) :
    (p.thread p.currentThread).resuming = true := by
  refine hReach.invariant
    (P := fun p => (p.thread p.currentThread).resuming = true)
    ?_ ?_
  · exact fun _ hInit => hInit.1
  · intro s a t hCurrent _ hStep
    exact resuming_step hCurrent hStep

/- A run of the others as a whole. -/
theorem keeps_of_run
    {t : Nat}
    {actions : List UserAction}
    (hRun :
      (system fun p' => p'.currentThread ≠ t).Run p actions
        q) :
    p.Keeps q t := by
  induction hRun with
  | nil => exact Keeps.of_eq rfl
  | snoc _ hAllowed hStep ih =>
      exact ih.trans (step_frame hAllowed.1.symm hStep)

/-
  A thread with an address space that is switched out finds
  all registers as they were when it goes on, and the page
  table of its own space.
-/
theorem registers_isolated
    {a : Nat}
    (hReach : (system fun _ => True).Reachable p)
    (hSpace : (p.thread p.currentThread).space = some a)
    (hResumes : p.Resumes q) :
    q.currentThread = p.currentThread ∧
      q.registers = p.registers ∧
      q.pageTable = some a ∧
      q.pageTableSize = (q.addrSpace a).numPages := by
  have hSome : (p.thread p.currentThread).space.isSome =
      true := by
    rw [hSpace]
    rfl
  have hSaved : p.saveState.thread p.currentThread =
      { p.thread p.currentThread with
        userRegisters := p.registers } := by
    rw [thread_saveState, if_pos ⟨rfl, hSome⟩]
  have hResuming := resuming_of_reachable hReach
  cases hResumes with
  | atOnce hIn =>
      cases hIn
      have hStarted : (p.saveState.thread
          p.currentThread).resuming = true := by
        rw [hSaved]
        exact hResuming
      have hOwn : (p.saveState.thread
          p.currentThread).space = some a := by
        rw [hSaved]
        exact hSpace
      have hGoesOn := p.runThread_resuming hStarted hOwn
      rw [hSaved] at hGoesOn
      exact ⟨currentThread_runThread .., hGoesOn⟩
  | @later p₁ p₂ _ nextThread actions hNext hOut hRun hAway
      hIn =>
      cases hOut
      cases hIn
      have hThread := p.thread_runThread nextThread
        p.currentThread
      rw [hSaved] at hThread
      have hKeeps := keeps_of_run hRun
      have hSame : p₂.saveState.thread p.currentThread =
          p₂.thread p.currentThread := by
        rw [thread_saveState, if_neg fun h => hAway h.1.symm]
      have hStarted : (p₂.saveState.thread
          p.currentThread).resuming = true := by
        rw [hSame]
        refine hKeeps.resuming ?_
        rw [hThread, hResuming, Bool.true_or]
      have hOwn : (p₂.saveState.thread
          p.currentThread).space = some a := by
        rw [hSame, hKeeps.space, hThread, hSpace]
      have hGoesOn := p₂.runThread_resuming hStarted hOwn
      rw [hSame, hKeeps.userRegisters, hThread] at hGoesOn
      exact ⟨currentThread_runThread .., hGoesOn⟩

/- A space of some pages, mapped one to one. -/
def pages
    (numPages : Word) :
    AddrSpace :=
  ⟨fun i => ⟨BitVec.ofNat 32 i, BitVec.ofNat 32 i, true, false,
    false, false⟩, numPages⟩

/- Before any program is loaded. -/
def idle : Processor where
  registers := fun _ => 0
  mainMemory := fun _ => 0
  tlb := none
  pageTable := none
  pageTableSize := 0
  addrSpace := fun _ => pages 0
  numSpaces := 0
  thread := fun t => ⟨fun _ => 0, none, t == 0⟩
  currentThread := 0

/- Two threads start programs with stacks in other places. -/
theorem registers_isolated_two_programs :
    ∃ p q : Processor,
      (system fun _ => True).Reachable p ∧ p.Resumes q ∧
      q.registers = p.registers ∧
      q.registers StackReg = 112 := by
  have hStart : (system fun _ => True).Reachable idle :=
    .of_init ⟨rfl, fun _ => rfl⟩
  have hReach : (system fun _ => True).Reachable
      (idle.startProcess (pages 1) fun _ => 0) :=
    hStart.of_step (a := .startProcess (pages 1) fun _ => 0)
      ⟨trivial, trivial⟩ rfl
  have hOther : (system fun p' => p'.currentThread ≠ 0).Run
      ((idle.startProcess (pages 1) fun _ => 0).runThread 1)
      ([] ++ [.startProcess (pages 2) fun _ => 0])
      (((idle.startProcess (pages 1) fun _ => 0).runThread
        1).startProcess (pages 2) fun _ => 0) :=
    .snoc (.nil _) ⟨by decide, trivial⟩ rfl
  have hResumes :
      (idle.startProcess (pages 1) fun _ => 0).Resumes
        ((((idle.startProcess (pages 1) fun _ => 0).runThread
          1).startProcess (pages 2) fun _ => 0).runThread 0) :=
    .later (by decide) (show step _ (.run 1) = _ from rfl)
      hOther (by decide) rfl
  have hIsolated := registers_isolated hReach rfl hResumes
  refine ⟨_, _, hReach, hResumes, hIsolated.2.1, ?_⟩
  rw [hIsolated.2.1]
  decide

end Processor

end Nachos
