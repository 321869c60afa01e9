import Nachos.Lib.RoundRobin
import Nachos.Threads.Turns

/-
  The thread test: threads that act and yield in a loop.

  `ThreadTest1` makes threads, forks them on `SimpleThread`
  and calls `SimpleThread` itself; here for any number of
  threads and of iterations.  Outside of primitives a thread
  is at some point of its code, and one step carries out what
  comes next there.

  Without interrupts the run is that of a queue in which the
  threads take turns.

  Main declarations:
    * `ThreadTest.execute`
    * `ThreadTest.run`
    * `ThreadTest.Represents.turn`
    * `ThreadTest.steps_start`
    * `ThreadTest.strict_rounds`
-/

------------------------------------
-- The Test
------------------------------------

namespace Nachos

/-
  Where a thread is in its code.  The main thread makes and
  forks the other threads first; `loop` is the test of the
  loop in `SimpleThread`, and `yield` is behind the action.
-/
inductive Control where
  | create (which : Nat)
  | fork (which : Nat)
  | loop (num : Nat)
  | yield (num : Nat)
  | finish
  | finished

/- What is seen of the threads. -/
inductive TestEvent where
  | acts (thread num : Nat)
  | finishes (thread : Nat)
  deriving DecidableEq

structure ThreadTest (H : Type) where
  sim : Sim H Kernel
  control : Nat → Control
  output : List TestEvent

namespace ThreadTest

variable {H : Type}

/- The main thread is about to call `ThreadTest1`. -/
def start : ThreadTest H where
  sim := ⟨Interrupt.create, Kernel.create⟩
  control := fun _ => .create 1
  output := []

def setControl
    (m : ThreadTest H)
    (t : Nat)
    (control : Control) :
    ThreadTest H :=
  { m with control := Function.update m.control t control }

/- The current thread goes to another point of its code. -/
def goTo
    (m : ThreadTest H)
    (control : Control) :
    ThreadTest H :=
  m.setControl m.sim.rest.currentThread control

def emit
    (m : ThreadTest H)
    (event : TestEvent) :
    ThreadTest H :=
  { m with output := m.output ++ [event] }

def call
    (m : ThreadTest H)
    (c : Sim.KernelCall H) :
    Option (ThreadTest H) := do
  let sim ← m.sim.call c
  some { m with sim := sim }

/-
  The code of the test at a point, for threads `1` to `n` and
  loops of `k` iterations.
-/
def carryOut
    (n k : Nat)
    (m : ThreadTest H)
    (current : Nat) :
    Control → Option (ThreadTest H)
| .create which =>
    if which ≤ n then
      (m.goTo (.create (which + 1))).call .newThread
    else
      some (m.goTo (.fork 1))
| .fork which =>
    if which ≤ n then
      ((m.goTo (.fork (which + 1))).setControl which
        (.loop 0)).call (.fork which)
    else
      some (m.goTo (.loop 0))
| .loop num =>
    if num < k then
      some ((m.emit (.acts current num)).goTo (.yield num))
    else
      some (m.goTo .finish)
| .yield num => (m.goTo (.loop (num + 1))).call .yield
| .finish =>
    ((m.emit (.finishes current)).goTo .finished).call .finish
| .finished => none

def execute
    (n k : Nat)
    (m : ThreadTest H) :
    Option (ThreadTest H) :=
  let current := m.sim.rest.currentThread
  m.carryOut n k current (m.control current)

def step
    (n k : Nat)
    (dev : Device H Kernel Nat)
    (m : ThreadTest H) :
    Option (ThreadTest H) :=
  if m.sim.rest.Outside then
    m.execute n k
  else do
    let sim ← m.sim.advance dev
    some { m with sim := sim }

/- Run until the machine halts. -/
def run
    (n k : Nat)
    (dev : Device H Kernel Nat) :
    Nat → ThreadTest H → Option (ThreadTest H)
| 0, _ => none
| fuel + 1, m =>
    if m.sim.rest.halted then
      some m
    else do
      let m ← m.step n k dev
      run n k dev fuel m

end ThreadTest

end Nachos

------------------------------------
-- Steps
------------------------------------

namespace Nachos

namespace ThreadTest

variable {H : Type}
variable {n k : Nat}
variable {dev : Device H Kernel Nat}
variable {m m' : ThreadTest H}

/- Steps of a machine that has not halted. -/
def Steps
    (n k : Nat)
    (dev : Device H Kernel Nat) :
    ThreadTest H → ThreadTest H → Prop :=
  Relation.ReflTransGen fun m m' =>
    m.sim.rest.halted = false ∧ m.step n k dev = some m'

/- With enough fuel a run that halts is found. -/
theorem run_of_steps
    (hSteps : Steps n k dev m m')
    (hHalted : m'.sim.rest.halted = true) :
    ∃ rounds, ∀ fuel, rounds ≤ fuel →
      run n k dev fuel m = some m' := by
  induction hSteps using
    Relation.ReflTransGen.head_induction_on with
  | refl =>
      refine ⟨1, ?_⟩
      intro fuel hFuel
      rcases Nat.exists_eq_add_of_le' hFuel with ⟨j, rfl⟩
      exact if_pos hHalted
  | head hStep _ ih =>
      rcases ih with ⟨rounds, hRuns⟩
      refine ⟨rounds + 1, ?_⟩
      intro fuel hFuel
      rcases Nat.exists_eq_add_of_le' hFuel with ⟨j, rfl⟩
      rw [← Nat.add_assoc, run, if_neg (by simp [hStep.1]),
        hStep.2]
      exact hRuns (j + rounds) (Nat.le_add_left ..)

/- What the kernel does within a primitive. -/
theorem steps_of_goes
    {sim : Sim H Kernel}
    (hGoes : Sim.Goes dev m.sim sim) :
    Steps n k dev m { m with sim := sim } := by
  induction hGoes with
  | refl => exact Relation.ReflTransGen.refl
  | tail _ hNext ih =>
      rename_i s t _
      refine Relation.ReflTransGen.tail ih ⟨?_, ?_⟩
      · show s.rest.halted = false
        by_contra hHalted
        have hNone : s.advance dev = none := by
          rw [Sim.advance, if_pos (by simpa using hHalted)]
        rw [hNone] at hNext
        cases hNext.2
      · rw [step, if_neg hNext.1, hNext.2]
        rfl

/- One step of the code of the current thread. -/
theorem steps_of_execute
    {c : Nat}
    {ready : List Nat}
    (hPoised : m.sim.Poised c ready)
    (hRun : m.execute n k = some m') :
    Steps n k dev m m' := by
  apply Relation.ReflTransGen.single
  refine ⟨hPoised.queue.going, ?_⟩
  rw [step, if_pos hPoised.outside]
  exact hRun

/- A primitive is called, and the kernel returns from it. -/
theorem steps_of_call
    {c : Nat}
    {ready : List Nat}
    {before : ThreadTest H}
    {call : Sim.KernelCall H}
    {called sim : Sim H Kernel}
    (hPoised : m.sim.Poised c ready)
    (hRun : m.execute n k = before.call call)
    (hCall : before.sim.call call = some called)
    (hGoes : Sim.Goes dev called sim) :
    Steps n k dev m { before with sim := sim } := by
  have hNext : m.execute n k =
      some { before with sim := called } := by
    rw [hRun, ThreadTest.call, hCall]
    rfl
  have hRest : Steps n k dev { before with sim := called }
      { before with sim := sim } :=
    steps_of_goes hGoes
  exact Relation.ReflTransGen.trans
    (steps_of_execute hPoised hNext) hRest

end ThreadTest

end Nachos

------------------------------------
-- The Queue of Threads
------------------------------------

namespace Nachos

namespace ThreadTest

/- A thread with the number of its next iteration. -/
abbrev Task := Nat × Nat

/- A turn of a thread: it acts and yields, or it finishes. -/
def turn
    (k : Nat) :
    Task → TestEvent × Option Task
| (t, num) =>
    if num < k then
      (.acts t num, some (t, num + 1))
    else
      (.finishes t, none)

/- One round of threads that are all at the same iteration. -/
theorem iterate_acts
    {k num : Nat}
    (hNum : num < k)
    (threads : List Nat)
    (events : List TestEvent) :
    (RoundRobin.step (turn k))^[threads.length]
        (threads.map (·, num), events) =
      (threads.map (·, num + 1),
        events ++ threads.map (.acts · num)) := by
  have hRound := RoundRobin.iterate_round (turn k)
    (threads.map (·, num)) events
  rw [List.length_map] at hRound
  rw [hRound, List.filterMap_map, List.map_map]
  simp [Function.comp_def, turn, hNum,
    List.filterMap_eq_map']

theorem iterate_finishes
    (k : Nat)
    (threads : List Nat)
    (events : List TestEvent) :
    (RoundRobin.step (turn k))^[threads.length]
        (threads.map (·, k), events) =
      ([], events ++ threads.map .finishes) := by
  have hRound := RoundRobin.iterate_round (turn k)
    (threads.map (·, k)) events
  rw [List.length_map] at hRound
  rw [hRound, List.filterMap_map, List.map_map]
  simp [Function.comp_def, turn]

/- All iterations, round by round. -/
theorem iterate_rounds
    (threads : List Nat)
    {k num : Nat}
    (hNum : num ≤ k) :
    (RoundRobin.step (turn k))^[num * threads.length]
        (threads.map (·, 0), []) =
      (threads.map (·, num),
        (List.range num).flatMap fun i =>
          threads.map (.acts · i)) := by
  induction num with
  | zero => simp
  | succ num ih =>
      rw [Nat.succ_mul, Nat.add_comm,
        Function.iterate_add_apply, ih (by omega),
        iterate_acts (by omega), List.range_succ,
        List.flatMap_append]
      simp

/- The whole run of the queue. -/
theorem iterate_queue
    (k : Nat)
    (threads : List Nat) :
    ∃ turns,
      (RoundRobin.step (turn k))^[turns]
          (threads.map (·, 0), []) =
        ([],
          ((List.range k).flatMap fun i =>
            threads.map (.acts · i)) ++
              threads.map .finishes) := by
  refine ⟨threads.length + k * threads.length, ?_⟩
  rw [Function.iterate_add_apply,
    iterate_rounds threads le_rfl, iterate_finishes]

------------------------------------
-- The Run of the Queue
------------------------------------

variable {H : Type}
variable {n k : Nat}
variable {m : ThreadTest H}
variable {events : List TestEvent}
variable {rest : List Task}
variable {t num : Nat}

/- All threads of the tasks are at the test of their loop. -/
def Looping
    (m : ThreadTest H)
    (tasks : List Task) : Prop :=
  ∀ task ∈ tasks, m.control task.1 = .loop task.2

/-
  The first task is that of the current thread, the others
  are those of the ready list.  With no task left the machine
  has halted.
-/
def Represents
    (m : ThreadTest H) :
    List Task × List TestEvent → Prop
| ([], events) =>
    m.sim.rest.halted = true ∧ m.output = events
| (task :: rest, events) =>
    m.sim.Poised task.1 (rest.map Prod.fst) ∧
      m.Looping (task :: rest) ∧ m.output = events

theorem represents_of_poised
    {tasks : List Task}
    {c : Nat}
    {ready : List Nat}
    (hPoised : m.sim.Poised c ready)
    (hTasks : tasks.map Prod.fst = c :: ready)
    (hLooping : m.Looping tasks) :
    m.Represents (tasks, m.output) := by
  cases tasks with
  | nil => cases hTasks
  | cons task rest =>
      rcases List.cons.inj hTasks with ⟨rfl, rfl⟩
      exact ⟨hPoised, hLooping, rfl⟩

theorem control_goTo
    {t : Nat}
    (hCurrent : m.sim.rest.currentThread = t)
    (control : Control) :
    (m.goTo control).control t = control := by
  rw [← hCurrent]
  exact Function.update_self ..

theorem control_setControl_of_ne
    (m : ThreadTest H)
    {t u : Nat}
    (hNe : u ≠ t)
    (control : Control) :
    (m.setControl t control).control u = m.control u :=
  Function.update_of_ne hNe _ _

theorem control_goTo_of_ne
    {t u : Nat}
    (hCurrent : m.sim.rest.currentThread = t)
    (hNe : u ≠ t)
    (control : Control) :
    (m.goTo control).control u = m.control u := by
  rw [← hCurrent] at hNe
  exact m.control_setControl_of_ne hNe control

theorem execute_eq
    {t : Nat}
    (hCurrent : m.sim.rest.currentThread = t)
    {control : Control}
    (hHere : m.control t = control) :
    m.execute n k = m.carryOut n k t control := by
  rw [execute, hCurrent, hHere]

/- Other threads stay where they are in their code. -/
theorem Looping.update
    {tasks : List Task}
    (hLooping : m.Looping tasks)
    {t : Nat}
    (hOther : t ∉ tasks.map Prod.fst)
    {m' : ThreadTest H}
    (hControl : ∀ u, u ≠ t → m'.control u = m.control u) :
    m'.Looping tasks := by
  intro task hTask
  rw [hControl, hLooping task hTask]
  intro hEq
  apply hOther
  rw [← hEq]
  exact List.mem_map_of_mem hTask

/- The first task tells what the current thread is at. -/
theorem Represents.first
    (hRep : m.Represents ((t, num) :: rest, events)) :
    m.sim.rest.currentThread = t ∧
    m.control t = .loop num ∧
    t ∉ rest.map Prod.fst ∧
    m.Looping rest := by
  rcases hRep with ⟨hPoised, hLooping, _⟩
  refine ⟨hPoised.queue.current,
    hLooping (t, num) List.mem_cons_self,
    hPoised.queue.not_mem, ?_⟩
  intro task hTask
  exact hLooping task (List.mem_cons_of_mem _ hTask)

/- The current thread acts, and then it yields. -/
theorem Represents.act
    (dev : Device H Kernel Nat)
    (hRep : m.Represents ((t, num) :: rest, events))
    (hNum : num < k) :
    ∃ m', Steps n k dev m m' ∧
      m'.Represents
        (rest ++ [(t, num + 1)], events ++ [.acts t num]) := by
  rcases hRep.first with
    ⟨hCurrent, hHere, hOthers, hLooping⟩
  rcases hRep with ⟨hPoised, _, rfl⟩
  let acted := (m.emit (.acts t num)).goTo (.yield num)
  have hAct : m.execute n k = some acted :=
    (execute_eq hCurrent hHere).trans (if_pos hNum)
  have hYield : acted.execute n k =
      (acted.goTo (.loop (num + 1))).call .yield :=
    execute_eq (m := acted) hCurrent
      (control_goTo (m := m.emit (.acts t num)) hCurrent _)
  rcases hPoised.yield dev with
    ⟨called, sim, next, ready, hCall, hRotate, hGoes, hNext⟩
  refine ⟨_, (steps_of_execute hPoised hAct).trans
    (steps_of_call hPoised hYield hCall hGoes), ?_⟩
  apply represents_of_poised hNext
  · rw [List.map_append]
    exact hRotate
  · intro task hTask
    rcases List.mem_append.mp hTask with hTask | hTask
    · apply hLooping.update hOthers _ task hTask
      intro u hNe
      exact (control_goTo_of_ne (m := acted) hCurrent hNe
        _).trans (control_goTo_of_ne
          (m := m.emit (.acts t num)) hCurrent hNe _)
    · rw [List.mem_singleton.mp hTask]
      exact control_goTo (m := acted) hCurrent _

/- The current thread finishes, and the next one goes on. -/
theorem Represents.finish
    (dev : Device H Kernel Nat)
    (hRep : m.Represents ((t, num) :: rest, events))
    (hNum : ¬ num < k) :
    ∃ m', Steps n k dev m m' ∧
      m'.Represents (rest, events ++ [.finishes t]) := by
  rcases hRep.first with
    ⟨hCurrent, hHere, hOthers, hLooping⟩
  rcases hRep with ⟨hPoised, _, rfl⟩
  let left := m.goTo .finish
  have hLeave : m.execute n k = some left :=
    (execute_eq hCurrent hHere).trans (if_neg hNum)
  have hFinish : left.execute n k =
      ((left.emit (.finishes t)).goTo .finished).call
        .finish :=
    execute_eq (m := left) hCurrent
      (control_goTo (m := m) hCurrent _)
  cases rest with
  | nil =>
      rcases hPoised.halt dev with
        ⟨called, sim, hCall, hGoes, hHalted⟩
      exact ⟨_, (steps_of_execute hPoised hLeave).trans
        (steps_of_call hPoised hFinish hCall hGoes),
        hHalted, rfl⟩
  | cons next rest =>
      rcases hPoised.finish dev with
        ⟨called, sim, hCall, hGoes, hNext⟩
      refine ⟨_, (steps_of_execute hPoised hLeave).trans
        (steps_of_call hPoised hFinish hCall hGoes), hNext,
        ?_, rfl⟩
      apply hLooping.update hOthers
      intro u hNe
      exact (control_goTo_of_ne
        (m := left.emit (.finishes t)) hCurrent hNe _).trans
        (control_goTo_of_ne (m := m) hCurrent hNe _)

theorem Represents.turn
    (dev : Device H Kernel Nat)
    {queue : List Task × List TestEvent}
    (hRep : m.Represents queue) :
    ∃ m', Steps n k dev m m' ∧
      m'.Represents
        (RoundRobin.step (ThreadTest.turn k) queue) := by
  rcases queue with ⟨tasks, events⟩
  cases tasks with
  | nil => exact ⟨m, Relation.ReflTransGen.refl, hRep⟩
  | cons task rest =>
      rcases task with ⟨t, num⟩
      by_cases hNum : num < k
      · rcases hRep.act dev hNum with ⟨m', hSteps, hNext⟩
        refine ⟨m', hSteps, ?_⟩
        simpa [RoundRobin.step, ThreadTest.turn, hNum]
          using hNext
      · rcases hRep.finish dev hNum with ⟨m', hSteps, hNext⟩
        refine ⟨m', hSteps, ?_⟩
        simpa [RoundRobin.step, ThreadTest.turn, hNum]
          using hNext

/- Any number of turns. -/
theorem Represents.turns
    (dev : Device H Kernel Nat)
    {queue : List Task × List TestEvent}
    (hRep : m.Represents queue)
    (j : Nat) :
    ∃ m', Steps n k dev m m' ∧
      m'.Represents
        ((RoundRobin.step (ThreadTest.turn k))^[j] queue) := by
  induction j with
  | zero => exact ⟨m, Relation.ReflTransGen.refl, hRep⟩
  | succ j ih =>
      rcases ih with ⟨m', hSteps, hNext⟩
      rcases hNext.turn dev with ⟨m'', hTurn, hLast⟩
      refine ⟨m'', Relation.ReflTransGen.trans hSteps hTurn,
        ?_⟩
      rw [Function.iterate_succ_apply']
      exact hLast

end ThreadTest

end Nachos

------------------------------------
-- Making and Forking the Threads
------------------------------------

namespace Nachos

namespace ThreadTest

variable {H : Type}
variable {n k : Nat}

/- The threads that the main thread makes. -/
def others
    (n : Nat) :
    List Nat :=
  (List.range n).map Nat.succ

theorem others_succ
    (n : Nat) :
    others (n + 1) = others n ++ [n + 1] := by
  rw [others, List.range_succ, List.map_append]
  rfl

theorem not_mem_others
    (n : Nat) :
    n + 1 ∉ 0 :: others n := by
  simp [others]

/- After `j` threads were made. -/
theorem steps_create
    (dev : Device H Kernel Nat)
    (hRoom : n + 1 ≤ MaxThread)
    {j : Nat}
    (hLe : j ≤ n) :
    ∃ m : ThreadTest H, Steps n k dev start m ∧
      m.sim.Poised 0 [] ∧ m.sim.rest.Setup (j + 1) ∧
      m.control 0 = .create (j + 1) ∧ m.output = [] := by
  induction j with
  | zero =>
      rcases Kernel.setup_create with
        ⟨hSetup, hQueue, hFrames⟩
      have hDispatched :
          (start : ThreadTest H).sim.Dispatched 0 [] :=
        ⟨hQueue, Or.inl hFrames, ⟨rfl, rfl, rfl⟩, rfl⟩
      rcases hDispatched.enable dev hFrames with
        ⟨sim, hGoes, hPoised, hKept⟩
      exact ⟨_, steps_of_goes hGoes, hPoised,
        hKept 1 hSetup, rfl, rfl⟩
  | succ j ih =>
      rcases ih (by omega) with
        ⟨m, hSteps, hPoised, hSetup, hHere, hOutput⟩
      have hCurrent := hPoised.queue.current
      have hCreate : m.execute n k =
          (m.goTo (.create (j + 2))).call .newThread :=
        (execute_eq hCurrent hHere).trans (if_pos hLe)
      rcases hPoised.newThread hSetup (by omega) with
        ⟨sim, hCall, hNext, hMore⟩
      refine ⟨_, Relation.ReflTransGen.trans hSteps
        (steps_of_call hPoised hCreate hCall
          Relation.ReflTransGen.refl), hNext, hMore, ?_,
        hOutput⟩
      exact control_goTo hCurrent _

/- After `j` threads were forked. -/
theorem steps_fork
    (dev : Device H Kernel Nat)
    (hRoom : n + 1 ≤ MaxThread)
    {j : Nat}
    (hLe : j ≤ n) :
    ∃ m : ThreadTest H, Steps n k dev start m ∧
      m.sim.Poised 0 (others j) ∧
      m.sim.rest.Setup (n + 1) ∧
      m.control 0 = .fork (j + 1) ∧
      (∀ t ∈ others j, m.control t = .loop 0) ∧
      m.output = [] := by
  induction j with
  | zero =>
      rcases steps_create (k := k) dev hRoom le_rfl with
        ⟨m, hSteps, hPoised, hSetup, hHere, hOutput⟩
      have hCurrent := hPoised.queue.current
      have hDone : m.execute n k = some (m.goTo (.fork 1)) :=
        (execute_eq hCurrent hHere).trans
          (if_neg (by omega))
      exact ⟨_, Relation.ReflTransGen.trans hSteps
        (steps_of_execute hPoised hDone), hPoised, hSetup,
        control_goTo hCurrent _, List.forall_mem_nil _,
        hOutput⟩
  | succ j ih =>
      rcases ih (by omega) with
        ⟨m, hSteps, hPoised, hSetup, hHere, hLoops, hOutput⟩
      have hCurrent := hPoised.queue.current
      let moved := m.goTo (.fork (j + 2))
      let forked := moved.setControl (j + 1) (.loop 0)
      have hFork : m.execute n k =
          forked.call (.fork (j + 1)) :=
        (execute_eq hCurrent hHere).trans (if_pos hLe)
      rcases hPoised.fork dev hSetup (not_mem_others j) with
        ⟨called, sim, hCall, hGoes, hNext, hKept⟩
      rw [others_succ]
      refine ⟨{ forked with sim := sim },
        Relation.ReflTransGen.trans hSteps
          (steps_of_call hPoised hFork hCall hGoes), hNext,
        hKept, ?_, ?_, hOutput⟩
      · have hMain : 0 ≠ j + 1 := by omega
        calc forked.control 0
          _ = moved.control 0 :=
            moved.control_setControl_of_ne hMain _
          _ = .fork (j + 2) := control_goTo hCurrent _
      · intro t ht
        rcases List.mem_append.mp ht with hOld | hLast
        · have hNew : t ≠ j + 1 := by
            intro hEq
            rw [hEq] at hOld
            exact not_mem_others j
              (List.mem_cons_of_mem _ hOld)
          have hMain : t ≠ 0 := hPoised.queue.ne_of_mem hOld
          calc forked.control t
            _ = moved.control t :=
              moved.control_setControl_of_ne hNew _
            _ = m.control t :=
              control_goTo_of_ne hCurrent hMain _
            _ = .loop 0 := hLoops t hOld
        · rw [List.mem_singleton.mp hLast]
          exact Function.update_self ..

/- All threads are at the start of their loops. -/
theorem steps_start
    (dev : Device H Kernel Nat)
    (hRoom : n + 1 ≤ MaxThread) :
    ∃ m : ThreadTest H, Steps n k dev start m ∧
      m.Represents ((List.range (n + 1)).map (·, 0), []) := by
  rcases steps_fork (k := k) dev hRoom le_rfl with
    ⟨m, hSteps, hPoised, _, hHere, hLoops, hOutput⟩
  have hCurrent := hPoised.queue.current
  have hEnter : m.execute n k = some (m.goTo (.loop 0)) :=
    (execute_eq hCurrent hHere).trans (if_neg (by omega))
  refine ⟨_, Relation.ReflTransGen.trans hSteps
    (steps_of_execute hPoised hEnter), ?_⟩
  have hThreads : List.range (n + 1) = 0 :: others n :=
    List.range_succ_eq_map
  rw [← hOutput]
  apply represents_of_poised (m := m.goTo (.loop 0)) hPoised
  · rw [List.map_map, hThreads]
    exact List.map_id _
  · intro task hTask
    rcases List.mem_map.mp hTask with ⟨t, ht, rfl⟩
    by_cases hMain : t = 0
    · rw [hMain]
      exact control_goTo hCurrent _
    · rw [hThreads] at ht
      rcases List.mem_cons.mp ht with hEq | hMem
      · exact absurd hEq hMain
      · exact (control_goTo_of_ne hCurrent hMain _).trans
          (hLoops t hMem)

end ThreadTest

end Nachos

------------------------------------
-- Strict Rounds
------------------------------------

namespace Nachos

namespace ThreadTest

variable {H : Type}

/-
  The run halts by itself.  In every iteration all threads
  act, the main thread first and the others in the order in
  which they were forked, and in this order they finish.
-/
theorem strict_rounds
    (n k : Nat)
    (hRoom : n + 1 ≤ MaxThread)
    (dev : Device H Kernel Nat) :
    ∃ m : ThreadTest H,
      (∃ rounds, ∀ fuel, rounds ≤ fuel →
        run n k dev fuel start = some m) ∧
      m.sim.rest.halted = true ∧
      m.output =
        ((List.range k).flatMap fun num =>
          (List.range (n + 1)).map (.acts · num)) ++
        (List.range (n + 1)).map .finishes := by
  rcases steps_start (n := n) (k := k) dev hRoom with
    ⟨m, hStart, hRep⟩
  rcases iterate_queue k (List.range (n + 1)) with
    ⟨turns, hQueue⟩
  rcases hRep.turns (n := n) (k := k) dev turns with
    ⟨last, hTurns, hLast⟩
  rw [hQueue] at hLast
  have hSteps : Steps n k dev start last :=
    Relation.ReflTransGen.trans hStart hTurns
  exact ⟨last, run_of_steps hSteps hLast.1, hLast⟩

/- The test as it is: five threads and five iterations. -/
theorem strict_rounds_five :
    4 + 1 ≤ MaxThread ∧
    ∃ m : ThreadTest Unit,
      (∃ rounds, ∀ fuel, rounds ≤ fuel →
        run 4 5 Sim.quietDevice fuel start = some m) ∧
      m.output.length = 30 ∧
      m.output.take 6 =
        [.acts 0 0, .acts 1 0, .acts 2 0, .acts 3 0,
          .acts 4 0, .acts 0 1] := by
  have hRoom : 4 + 1 ≤ MaxThread := by decide
  rcases strict_rounds 4 5 hRoom Sim.quietDevice with
    ⟨m, hRuns, _, hOutput⟩
  refine ⟨hRoom, m, hRuns, ?_, ?_⟩
  · rw [hOutput]
    decide
  · rw [hOutput]
    decide

end ThreadTest

end Nachos
