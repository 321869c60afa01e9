import Mathlib.Logic.Relation
import Nachos.Machine.Draining
import Nachos.Threads.Levels

/-
  Threads that take turns while no interrupt occurs.

  Between primitives the current thread runs with interrupts
  enabled, and all other threads that exist are on the ready
  list.  A thread there has not been started, or is in
  `Scheduler::Run` behind `SWITCH`.  A dispatched thread first
  gets out of that, and then runs.

  Main declarations:
    * `Kernel.Queue`
    * `Sim.Poised`
    * `Sim.Poised.finish`
    * `Sim.Poised.halt`
    * `Sim.Poised.fork`
-/

------------------------------------
-- Ticks Without Interrupts
------------------------------------

namespace Nachos

variable {H κ ω : Type}

/- No interrupt is pending, and no handler has run. -/
structure Interrupt.Calm
    (i : Interrupt H) : Prop where
  pending : i.pending = []
  outside : i.inHandler = false
  noYield : i.yieldOnReturn = false

theorem Interrupt.Calm.changeLevel
    {i : Interrupt H}
    (hCalm : i.Calm)
    (now : IntStatus) :
    (i.changeLevel now).Calm :=
  ⟨hCalm.pending, hCalm.outside, hCalm.noYield⟩

namespace Sim

variable {s : Sim H κ}

/- A tick only moves the clock. -/
theorem oneTick_calm
    (dev : Device H κ ω)
    (hCalm : s.interrupt.Calm) :
    ∃ i, s.oneTick dev = some (none, ⟨i, s.rest⟩) ∧
      i.Calm ∧ i.level = .on := by
  rcases s.interrupt.advance_eq with ⟨stats, _, hAdvance⟩
  have hTicked : s.ticked.interrupt =
      { s.interrupt with stats := stats, level := .off } := by
    rw [ticked, hAdvance]
    rfl
  have hDrain :
      drain dev s.ticked.rounds s.ticked = some s.ticked := by
    simp [rounds, drain, checkIfDue, hTicked, hCalm.pending]
  have hNoYield :
      ¬ s.ticked.interrupt.yieldOnReturn = true := by
    simp [hTicked, hCalm.noYield]
  rw [oneTick_eq, hDrain, Option.bind_some, if_neg hNoYield,
    hTicked]
  exact ⟨_, rfl, ⟨hCalm.pending, hCalm.outside,
    hCalm.noYield⟩, rfl⟩

/- With nothing to wait for the machine stops. -/
theorem idle_calm
    (dev : Device H κ ω)
    (hCalm : s.interrupt.Calm)
    (hLevel : s.interrupt.level = .off) :
    ∃ i, s.idle dev = some (false, ⟨i, s.rest⟩) := by
  refine ⟨{ s.interrupt with status := .idle }, ?_⟩
  simp [idle, checkIfDue, hLevel, hCalm.pending]

end Sim

end Nachos

------------------------------------
-- The Ready Queue
------------------------------------

namespace Nachos

namespace Kernel

/- All thread numbers are entries of the table. -/
def Numbered
    (k : Kernel) : Prop :=
  ∀ t, 0 ≤ (k.thread t).threadID ∧
    (k.thread t).threadID < MaxThread

/-
  What a thread on the ready list has to do first: it has not
  been started, or it has called `Yield`.
-/
def Waiting
    (k : Kernel)
    (t : Nat) : Prop :=
  k.framesOf t = [.setLevel .on] ∨
    k.framesOf t = [.afterSwitch, .setLevel .on]

/-
  The current thread and those that are ready, in order.  A
  thread that waits to be destroyed is none of them.
-/
structure Queue
    (k : Kernel)
    (c : Nat)
    (ready : List Nat) : Prop where
  current : k.currentThread = c
  readyList : k.readyList = ready
  nodup : (c :: ready).Nodup
  waiting : ∀ t ∈ ready, k.Waiting t
  doomed :
    ∀ t, k.threadToBeDestroyed = some t → t ∉ c :: ready
  numbered : k.Numbered
  awake : k.sleeping = false
  going : k.halted = false

variable {k k' : Kernel}
variable {c : Nat}
variable {ready : List Nat}

theorem Numbered.setThread
    (hNumbered : k.Numbered)
    (t : Nat)
    {thread : Thread}
    (hID : 0 ≤ thread.threadID ∧ thread.threadID < MaxThread) :
    (k.setThread t thread).Numbered := by
  intro u
  by_cases hEq : u = t
  · rw [hEq]
    simpa [Kernel.setThread] using hID
  · simpa [Kernel.setThread, hEq] using hNumbered u

/- Threads whose frames stay as they are go on waiting. -/
theorem Waiting.of_eq
    {t : Nat}
    (hWaiting : k.Waiting t)
    (hFrames : k'.framesOf t = k.framesOf t) :
    k'.Waiting t := by
  rw [Waiting, hFrames]
  exact hWaiting

namespace Queue

theorem not_mem
    (hQueue : k.Queue c ready) :
    c ∉ ready :=
  (List.nodup_cons.mp hQueue.nodup).1

theorem ne_of_mem
    (hQueue : k.Queue c ready)
    {t : Nat}
    (ht : t ∈ ready) :
    t ≠ c := by
  intro hEq
  rw [hEq] at ht
  exact hQueue.not_mem ht

/- What the current thread is in does not matter. -/
theorem setFrames
    (hQueue : k.Queue c ready)
    (frames : List Frame) :
    (k.setFrames c frames).Queue c ready where
  current := hQueue.current
  readyList := hQueue.readyList
  nodup := hQueue.nodup
  waiting := by
    intro t ht
    apply (hQueue.waiting t ht).of_eq
    rw [framesOf_setFrames]
    exact Function.update_of_ne (hQueue.ne_of_mem ht) _ _
  doomed := hQueue.doomed
  numbered := hQueue.numbered.setThread c (hQueue.numbered c)
  awake := hQueue.awake
  going := hQueue.going

theorem push
    (hQueue : k.Queue c ready)
    (frames : List Frame) :
    (k.push frames).Queue c ready := by
  rw [Kernel.push, hQueue.current]
  exact hQueue.setFrames _

end Queue

/- `Yield` when another thread is ready. -/
theorem yield_eq_run
    {next : Nat}
    {rest : List Nat}
    (hReady : k.readyList = next :: rest)
    (old : IntStatus) :
    k.yield old =
      ({ k.push [.setLevel old] with
        readyList := rest }.readyToRun
          k.currentThread).run next := by
  have hSame :
      (k.push [.setLevel old]).readyList = next :: rest :=
    hReady
  rw [Kernel.yield]
  simp only [hSame]
  rfl

/- Only the thread that yields is in something new. -/
theorem framesOf_yield
    {next : Nat}
    {rest : List Nat}
    (hReady : k.readyList = next :: rest)
    (hFrames : k.framesOf k.currentThread = [])
    (old : IntStatus) :
    (k.yield old).framesOf =
      Function.update k.framesOf k.currentThread
        [.afterSwitch, .setLevel old] := by
  have hReadied :
      ({ k.push [.setLevel old] with
        readyList := rest }.readyToRun
          k.currentThread).framesOf =
        Function.update k.framesOf k.currentThread
          [.setLevel old] := by
    rw [(holds_readyToRun _ _).framesOf]
    refine (k.framesOf_push _).trans ?_
    rw [hFrames]
    rfl
  rw [yield_eq_run hReady, framesOf_run, hReadied]
  refine (Function.update_idem ..).trans ?_
  exact congrArg _ (congrArg _ (Function.update_self ..))

/- A new thread will start in `ThreadRoot`. -/
theorem framesOf_fork
    (k : Kernel)
    (t : Nat) :
    (k.fork t).framesOf =
      Function.update k.framesOf t [.setLevel .on] :=
  ((holds_readyToRun _ t).framesOf).trans
    (k.framesOf_setFrames t _)

theorem framesOf_deletions
    (k : Kernel)
    (t deletions : Nat) :
    (k.setThread t
      { k.thread t with deletions := deletions }).framesOf =
      k.framesOf := by
  funext u
  by_cases hEq : u = t
  · simp [framesOf, Kernel.setThread, hEq]
  · simp [framesOf, Kernel.setThread, hEq]

namespace Queue

/- The destructor finds the number of its thread. -/
theorem delete
    (hQueue : k.Queue c ready)
    {t : Nat}
    (hNe : t ≠ k.currentThread) :
    ∃ k', k.delete t = some k' ∧ k'.Queue c ready ∧
      k'.framesOf = k.framesOf := by
  have hFrames := k.framesOf_deletions t
    ((k.thread t).deletions + 1)
  rw [Kernel.delete, if_pos hNe, releaseThreadID,
    dif_pos (hQueue.numbered t)]
  refine ⟨_, rfl, ?_, hFrames⟩
  refine ⟨hQueue.current, hQueue.readyList, hQueue.nodup, ?_,
    hQueue.doomed,
    hQueue.numbered.setThread t (hQueue.numbered t),
    hQueue.awake, hQueue.going⟩
  intro u hu
  exact (hQueue.waiting u hu).of_eq (congrFun hFrames u)

/- A thread that was destroyed is not destroyed again. -/
theorem afterSwitch
    (hQueue : k.Queue c ready) :
    ∃ k', k.afterSwitch = some k' ∧ k'.Queue c ready ∧
      k'.framesOf = k.framesOf ∧
      k'.threadToBeDestroyed = none := by
  cases hDoomed : k.threadToBeDestroyed with
  | none =>
      refine ⟨{ k with resumedSinceFinish := true }, ?_, ?_,
        rfl, hDoomed⟩
      · simp [Kernel.afterSwitch, hDoomed]
      · exact { hQueue with }
  | some t =>
      have hNe : t ≠ k.currentThread := by
        intro hEq
        apply hQueue.doomed t hDoomed
        rw [hEq, hQueue.current]
        exact List.mem_cons_self
      rcases hQueue.delete hNe with
        ⟨k', hDelete, hNext, hFrames⟩
      refine ⟨{ k' with
        threadToBeDestroyed := none
        resumedSinceFinish := true }, ?_, ?_, hFrames, rfl⟩
      · simp [Kernel.afterSwitch, hDoomed, hDelete]
      · exact { hNext with doomed := fun _ hu => nomatch hu }

/- Dispatch a thread that was taken from the ready list. -/
theorem run
    {next : Nat}
    (hReady : k.readyList = ready)
    (hNodup : (next :: ready).Nodup)
    (hWaiting : ∀ t ∈ ready, (k.run next).Waiting t)
    (hDoomed :
      ∀ t, k.threadToBeDestroyed = some t →
        t ∉ next :: ready)
    (hNumbered : k.Numbered)
    (hGoing : k.halted = false) :
    (k.run next).Queue next ready where
  current := rfl
  readyList := hReady
  nodup := hNodup
  waiting := hWaiting
  doomed := hDoomed
  numbered := by
    have hPush : (k.push [.afterSwitch]).Numbered :=
      hNumbered.setThread _ (hNumbered _)
    exact hPush.setThread next (hPush next)
  awake := rfl
  going := hGoing

/- `Yield` leaves the first of the others running. -/
theorem yield_cons
    {next : Nat}
    {rest : List Nat}
    (hQueue : k.Queue c (next :: rest))
    (hFrames : k.framesOf c = []) :
    (k.yield .on).Queue next (rest ++ [c]) ∧
      (k.yield .on).Waiting next := by
  obtain rfl := hQueue.current
  have hAll := framesOf_yield hQueue.readyList hFrames .on
  have hOthers : ∀ t ∈ next :: rest,
      (k.yield .on).Waiting t := by
    intro t ht
    apply (hQueue.waiting t ht).of_eq
    rw [hAll]
    exact Function.update_of_ne (hQueue.ne_of_mem ht) _ _
  have hLast : (k.yield .on).Waiting k.currentThread := by
    right
    rw [hAll]
    exact Function.update_self ..
  have hPerm : (next :: (rest ++ [k.currentThread])).Perm
      (k.currentThread :: next :: rest) :=
    List.perm_append_singleton _ (next :: rest)
  refine ⟨?_, hOthers next List.mem_cons_self⟩
  have hYield := yield_eq_run hQueue.readyList .on
  rw [hYield] at hOthers hLast ⊢
  apply run rfl (hPerm.nodup_iff.mpr hQueue.nodup)
  · intro t ht
    rcases List.mem_append.mp ht with ht | ht
    · exact hOthers t (List.mem_cons_of_mem _ ht)
    · rw [List.mem_singleton.mp ht]
      exact hLast
  · intro t ht hMem
    exact hQueue.doomed t ht (hPerm.mem_iff.mp hMem)
  · have hPush := (hQueue.push [.setLevel .on]).numbered
    exact hPush.setThread _ (hPush _)
  · exact hQueue.going

/- `Yield` moves the current thread behind the others. -/
theorem yield
    (hQueue : k.Queue c ready)
    (hFrames : k.framesOf c = []) :
    ∃ next rest, ready ++ [c] = next :: rest ∧
      (k.yield .on).Queue next rest ∧
      (k.yield .on).Waiting next := by
  cases ready with
  | nil =>
      have hYield : k.yield .on = k.push [.setLevel .on] := by
        have hReady :
            (k.push [.setLevel .on]).readyList = [] :=
          hQueue.readyList
        rw [Kernel.yield]
        simp only [hReady]
      rw [hYield]
      refine ⟨c, [], rfl, hQueue.push _, Or.inl ?_⟩
      obtain rfl := hQueue.current
      rw [framesOf_push, Function.update_self, hFrames]
      rfl
  | cons next rest =>
      rcases hQueue.yield_cons hFrames with ⟨hNext, hFirst⟩
      exact ⟨next, rest ++ [c], rfl, hNext, hFirst⟩

/- `Finish` leaves the first of the others running. -/
theorem finish
    {next : Nat}
    {rest : List Nat}
    (hQueue : k.Queue c (next :: rest)) :
    ({ k.finish with readyList := rest }.run next).Queue next
        rest ∧
      ({ k.finish with readyList := rest }.run
        next).Waiting next := by
  obtain rfl := hQueue.current
  have hFinish : k.finish.framesOf = k.framesOf := by
    refine (framesOf_setStatus _ _ _).trans ?_
    funext u
    by_cases hEq : u = k.currentThread
    · simp [framesOf, Kernel.setThread, hEq]
    · simp [framesOf, Kernel.setThread, hEq]
  have hOthers : ∀ t ∈ next :: rest,
      ({ k.finish with readyList := rest }.run
        next).Waiting t := by
    intro t ht
    apply (hQueue.waiting t ht).of_eq
    rw [framesOf_run]
    refine (Function.update_of_ne
      (hQueue.ne_of_mem ht) _ _).trans ?_
    exact congrFun hFinish t
  have hTail := List.nodup_cons.mp hQueue.nodup
  refine ⟨?_, hOthers next List.mem_cons_self⟩
  apply run rfl hTail.2
  · intro t ht
    exact hOthers t (List.mem_cons_of_mem _ ht)
  · intro t ht
    cases ht
    exact hTail.1
  · have hMarked :
        (k.setThread k.currentThread
          { k.thread k.currentThread with
            finished := true }).Numbered :=
      hQueue.numbered.setThread _ (hQueue.numbered _)
    exact hMarked.setThread _ (hMarked _)
  · exact hQueue.going

/- `Fork` puts a new thread behind the others. -/
theorem fork
    (hQueue : k.Queue c ready)
    {t : Nat}
    (hNew : t ∉ c :: ready)
    (hNone : k.threadToBeDestroyed = none) :
    (k.fork t).Queue c (ready ++ [t]) := by
  have hFrames := k.framesOf_fork t
  have hPerm : (c :: (ready ++ [t])).Perm (t :: c :: ready) :=
    List.perm_append_singleton t (c :: ready)
  refine ⟨hQueue.current, ?_, ?_, ?_, ?_, ?_, hQueue.awake,
    hQueue.going⟩
  · exact congrArg (· ++ [t]) hQueue.readyList
  · exact hPerm.nodup_iff.mpr
      (List.nodup_cons.mpr ⟨hNew, hQueue.nodup⟩)
  · intro u hu
    rcases List.mem_append.mp hu with hOld | hLast
    · have hNe : u ≠ t := by
        intro hEq
        rw [hEq] at hOld
        exact hNew (List.mem_cons_of_mem _ hOld)
      apply (hQueue.waiting u hOld).of_eq
      rw [hFrames]
      exact Function.update_of_ne hNe _ _
    · rw [List.mem_singleton.mp hLast]
      left
      rw [hFrames]
      exact Function.update_self ..
  · intro u hu
    have hNever : k.threadToBeDestroyed = some u := hu
    rw [hNone] at hNever
    cases hNever
  · have hStack : (k.setFrames t [.setLevel .on]).Numbered :=
      hQueue.numbered.setThread t (hQueue.numbered t)
    exact hStack.setThread t (hStack t)

end Queue

end Kernel

end Nachos

------------------------------------
-- Creating Threads
------------------------------------

namespace Nachos

open Ownership

namespace Kernel

/- So many threads were made, and none of them has ended. -/
structure Setup
    (k : Kernel)
    (m : Nat) : Prop where
  numThreads : k.numThreads = m
  binary : ThreadIDs.Binary k.threadIDs
  tracked :
    ∃ held, Tracks (ThreadIDs.IsTaken k.threadIDs) held ∧
      held.length = m
  intact : k.threadToBeDestroyed = none

variable {k : Kernel}
variable {c m : Nat}

/- The constructor finds a number for the thread. -/
theorem Setup.newThread
    (hSetup : k.Setup m)
    (hQueue : k.Queue c [])
    (hRoom : m < MaxThread) :
    k.newThread.Setup (m + 1) ∧ k.newThread.Queue c [] := by
  rcases hSetup.tracked with ⟨held, hTracks, hLength⟩
  rcases ThreadIDs.allocate_of_lt hSetup.binary hTracks
    (hLength.symm ▸ hRoom) with
    ⟨i, hAllocate, hBinary, hNext⟩
  have hNew : k.newThread =
      { k.setThread k.numThreads (Thread.create i.1) with
        numThreads := k.numThreads + 1
        threadIDs := Function.update k.threadIDs i 1 } := by
    rw [Kernel.newThread, hAllocate]
  rw [hNew]
  refine ⟨⟨congrArg (· + 1) hSetup.numThreads, hBinary,
    ⟨_, hNext, congrArg (· + 1) hLength⟩, hSetup.intact⟩, ?_⟩
  have hID : 0 ≤ (Thread.create i.1).threadID ∧
      (Thread.create i.1).threadID < MaxThread := by
    have hLt := i.2
    simp only [Thread.create]
    omega
  exact ⟨hQueue.current, hQueue.readyList, hQueue.nodup,
    List.forall_mem_nil _, hQueue.doomed,
    hQueue.numbered.setThread _ hID, hQueue.awake,
    hQueue.going⟩

/- A constructed thread is in nothing. -/
theorem framesOf_newThread
    (hFrames : k.framesOf c = []) :
    k.newThread.framesOf c = [] := by
  by_cases hEq : c = k.numThreads
  · simp [framesOf, Kernel.newThread, Kernel.setThread,
      Thread.create, hEq]
  · simpa [framesOf, Kernel.newThread, Kernel.setThread, hEq]
      using hFrames

/- The main thread is made, with nothing before it. -/
theorem setup_create :
    create.Setup 1 ∧ create.Queue 0 [] ∧
      create.framesOf 0 = [.setLevel .on] := by
  have hEmpty : empty.Setup 0 := by
    refine ⟨rfl, fun _ => Or.inl rfl, ⟨[], ?_, rfl⟩, rfl⟩
    refine ⟨List.nodup_nil, fun a => ?_⟩
    constructor
    · intro hTaken
      rcases hTaken with ⟨i, _, hOne⟩
      cases hOne
    · intro hMem
      cases hMem
  have hQueue : empty.Queue 0 [] := by
    refine ⟨rfl, rfl, List.nodup_singleton 0,
      List.forall_mem_nil _, ?_, ?_, rfl, rfl⟩
    · intro t ht
      cases ht
    · intro t
      exact (by decide : (0 : Int) ≤ 0 ∧ (0 : Int) < MaxThread)
  rcases hEmpty.newThread hQueue (by decide) with
    ⟨hSetup, hMain⟩
  have hStatus :
      (empty.newThread.setStatus 0 .running).Queue 0 [] :=
    ⟨hMain.current, hMain.readyList, hMain.nodup,
      List.forall_mem_nil _, hMain.doomed,
      hMain.numbered.setThread 0 (hMain.numbered 0),
      hMain.awake, hMain.going⟩
  refine ⟨?_, hStatus.push _, ?_⟩
  · exact ⟨hSetup.numThreads, hSetup.binary, hSetup.tracked,
      hSetup.intact⟩
  · rw [create, framesOf_push, framesOf_setStatus]
    rfl

end Kernel

end Nachos

------------------------------------
-- Turns
------------------------------------

namespace Nachos

variable {H : Type}

namespace Sim

/- A thread was switched to, or has disabled interrupts. -/
structure Dispatched
    (s : Sim H Kernel)
    (c : Nat)
    (ready : List Nat) : Prop where
  queue : s.rest.Queue c ready
  waiting : s.rest.Waiting c
  calm : s.interrupt.Calm
  off : s.interrupt.level = .off

/- The current thread runs and is in no primitive. -/
structure Poised
    (s : Sim H Kernel)
    (c : Nat)
    (ready : List Nat) : Prop where
  queue : s.rest.Queue c ready
  frames : s.rest.framesOf c = []
  calm : s.interrupt.Calm
  on : s.interrupt.level = .on

/- Steps within primitives. -/
def Goes
    (dev : Device H Kernel Nat) :
    Sim H Kernel → Sim H Kernel → Prop :=
  Relation.ReflTransGen fun s t =>
    ¬ s.rest.Outside ∧ s.advance dev = some t

variable {dev : Device H Kernel Nat}
variable {s t : Sim H Kernel}
variable {c : Nat}
variable {ready : List Nat}

theorem Poised.outside
    (hPoised : s.Poised c ready) :
    s.rest.Outside := by
  refine ⟨hPoised.queue.awake, ?_⟩
  rw [hPoised.queue.current]
  exact hPoised.frames

/- One frame of the current thread is carried out. -/
theorem goes_frame
    {frame : Frame}
    {frames : List Frame}
    (hQueue : s.rest.Queue c ready)
    (hFrames : s.rest.framesOf c = frame :: frames)
    (hRun :
      (s.mapRest fun k => k.setFrames c frames).resume dev
        frame = some t) :
    Goes dev s t := by
  obtain rfl := hQueue.current
  have hTop : (s.rest.thread s.rest.currentThread).frames =
      frame :: frames := hFrames
  apply Relation.ReflTransGen.single
  constructor
  · intro hOutside
    rw [hOutside.2] at hTop
    cases hTop
  · rw [Sim.advance, if_neg (by simp [hQueue.going]),
      if_neg (by simp [hQueue.awake]), hTop]
    exact hRun

/- Interrupts are enabled, and the clock ticks once. -/
theorem Dispatched.enable
    (dev : Device H Kernel Nat)
    (hDispatched : s.Dispatched c ready)
    (hFrames : s.rest.framesOf c = [.setLevel .on]) :
    ∃ t, Goes dev s t ∧ t.Poised c ready ∧
      ∀ m, s.rest.Setup m → t.rest.Setup m := by
  have hCalm := hDispatched.calm.changeLevel .on
  have hEnter : (s.mapRest fun k => k.setFrames c []).resume
      dev (.setLevel .on) =
        some ⟨s.interrupt.changeLevel .on,
          (s.rest.setFrames c []).push [.oneTick]⟩ := by
    simp [resume, setLevel, Interrupt.setLevel, mapRest,
      hDispatched.calm.outside, hDispatched.off]
  have hFirst := goes_frame hDispatched.queue hFrames hEnter
  have hQueue := (hDispatched.queue.setFrames []).push
    [.oneTick]
  have hTicking :
      ((s.rest.setFrames c []).push [.oneTick]).framesOf c =
        [.oneTick] := by
    obtain rfl := hDispatched.queue.current
    rw [Kernel.framesOf_pop_push]
    exact Function.update_self ..
  rcases oneTick_calm dev
    (s := ⟨s.interrupt.changeLevel .on,
      ((s.rest.setFrames c []).push [.oneTick]).setFrames c
        []⟩) hCalm with ⟨i, hTick, hStill, hOn⟩
  have hLeave : (mapRest ⟨s.interrupt.changeLevel .on,
      (s.rest.setFrames c []).push [.oneTick]⟩ fun k =>
        k.setFrames c []).resume dev .oneTick =
      some ⟨i, ((s.rest.setFrames c []).push
        [.oneTick]).setFrames c []⟩ := by
    simp only [resume, mapRest, hTick]
    rfl
  refine ⟨_, hFirst.trans (goes_frame hQueue hTicking hLeave),
    ⟨hQueue.setFrames [], ?_, hStill, hOn⟩, ?_⟩
  · rw [Kernel.framesOf_setFrames]
    exact Function.update_self ..
  · intro m hSetup
    exact ⟨hSetup.numThreads, hSetup.binary, hSetup.tracked,
      hSetup.intact⟩

/- A dispatched thread gets out of the kernel. -/
theorem Dispatched.resume
    (dev : Device H Kernel Nat)
    (hDispatched : s.Dispatched c ready) :
    ∃ t, Goes dev s t ∧ t.Poised c ready := by
  rcases hDispatched.waiting with hFrames | hFrames
  · rcases hDispatched.enable dev hFrames with
      ⟨t, hGoes, hPoised, _⟩
    exact ⟨t, hGoes, hPoised⟩
  · rcases (hDispatched.queue.setFrames
      [.setLevel .on]).afterSwitch with
      ⟨k, hRun, hQueue, hSame, _⟩
    have hLeft : k.framesOf c = [.setLevel .on] := by
      rw [hSame, Kernel.framesOf_setFrames]
      exact Function.update_self ..
    have hNext : Dispatched ⟨s.interrupt, k⟩ c ready :=
      ⟨hQueue, Or.inl hLeft, hDispatched.calm,
        hDispatched.off⟩
    rcases hNext.enable dev hLeft with ⟨t, hGoes, hPoised, _⟩
    refine ⟨t, Relation.ReflTransGen.trans ?_ hGoes, hPoised⟩
    apply goes_frame hDispatched.queue hFrames
    simp only [Sim.resume, mapRest, hRun]
    rfl

/- The current thread goes behind the others. -/
theorem Poised.yield
    (dev : Device H Kernel Nat)
    (hPoised : s.Poised c ready) :
    ∃ called t next rest,
      s.call .yield = some called ∧
      ready ++ [c] = next :: rest ∧
      Goes dev called t ∧ t.Poised next rest := by
  have hQueue := hPoised.queue.push [.yield]
  have hFrames : (s.rest.push [.yield]).framesOf c =
      [.yield] := by
    obtain rfl := hPoised.queue.current
    rw [Kernel.framesOf_push, hPoised.frames]
    exact Function.update_self ..
  have hNone :
      ((s.rest.push [.yield]).setFrames c []).framesOf c = []
      := by
    rw [Kernel.framesOf_setFrames]
    exact Function.update_self ..
  rcases (hQueue.setFrames []).yield hNone with
    ⟨next, rest, hRotate, hNext, hWaiting⟩
  have hDispatched : Dispatched
      ⟨s.interrupt.changeLevel .off,
        ((s.rest.push [.yield]).setFrames c []).yield .on⟩
      next rest :=
    ⟨hNext, hWaiting, hPoised.calm.changeLevel .off, rfl⟩
  rcases hDispatched.resume dev with
    ⟨t, hGoes, hPoisedNext⟩
  refine ⟨_, t, next, rest, rfl, hRotate,
    Relation.ReflTransGen.trans ?_ hGoes, hPoisedNext⟩
  apply goes_frame hQueue hFrames
  simp only [Sim.resume, mapRest, disable, hPoised.on]

/- A thread that ends is in the loop of `Sleep` next. -/
theorem advance_finish
    (hGoing : s.rest.halted = false) :
    (s.disable.mapRest (·.finish)).advance dev =
      (s.disable.mapRest (·.finish)).sleepLoop dev := by
  have hNot :
      ¬ (s.disable.mapRest (·.finish)).rest.halted = true := by
    show ¬ s.rest.halted = true
    simp [hGoing]
  rw [Sim.advance, if_neg hNot]
  exact if_pos rfl

/- The current thread ends, and the next one goes on. -/
theorem Poised.finish
    (dev : Device H Kernel Nat)
    {next : Nat}
    {rest : List Nat}
    (hPoised : s.Poised c (next :: rest)) :
    ∃ called t,
      s.call .finish = some called ∧
      Goes dev called t ∧ t.Poised next rest := by
  rcases hPoised.queue.finish with ⟨hQueue, hWaiting⟩
  have hDispatched : Dispatched
      ⟨s.interrupt.changeLevel .off,
        { s.rest.finish with readyList := rest }.run next⟩
      next rest :=
    ⟨hQueue, hWaiting, hPoised.calm.changeLevel .off, rfl⟩
  rcases hDispatched.resume dev with
    ⟨t, hGoes, hPoisedNext⟩
  refine ⟨s.disable.mapRest (·.finish), t, rfl,
    Relation.ReflTransGen.head ⟨?_, ?_⟩ hGoes, hPoisedNext⟩
  · intro hOutside
    cases hOutside.1
  · have hReady :
        (s.disable.mapRest (·.finish)).rest.readyList =
          next :: rest :=
      hPoised.queue.readyList
    rw [advance_finish hPoised.queue.going, sleepLoop,
      hReady]
    rfl

/- The last thread ends, and there is nothing to wait for. -/
theorem Poised.halt
    (dev : Device H Kernel Nat)
    (hPoised : s.Poised c []) :
    ∃ called t,
      s.call .finish = some called ∧
      Goes dev called t ∧ t.rest.halted = true := by
  rcases idle_calm dev (s := s.disable.mapRest (·.finish))
    (hPoised.calm.changeLevel .off) rfl with ⟨i, hIdle⟩
  refine ⟨s.disable.mapRest (·.finish),
    ⟨i, { s.rest.finish with halted := true }⟩, rfl,
    Relation.ReflTransGen.single ⟨?_, ?_⟩, rfl⟩
  · intro hOutside
    cases hOutside.1
  · have hReady :
        (s.disable.mapRest (·.finish)).rest.readyList = [] :=
      hPoised.queue.readyList
    rw [advance_finish hPoised.queue.going, sleepLoop,
      hReady]
    simp only [hIdle]
    rfl

/- A new thread goes behind the others. -/
theorem Poised.fork
    (dev : Device H Kernel Nat)
    (hPoised : s.Poised c ready)
    {m : Nat}
    (hSetup : s.rest.Setup m)
    {u : Nat}
    (hNew : u ∉ c :: ready) :
    ∃ called t,
      s.call (.fork u) = some called ∧
      Goes dev called t ∧ t.Poised c (ready ++ [u]) ∧
      t.rest.Setup m := by
  have hQueue :=
    (hPoised.queue.fork hNew hSetup.intact).push
      [.setLevel .on]
  have hFrames :
      ((s.rest.fork u).push [.setLevel .on]).framesOf c =
        [.setLevel .on] := by
    have hNe : c ≠ u := by
      intro hEq
      rw [hEq] at hNew
      exact hNew List.mem_cons_self
    obtain rfl := hPoised.queue.current
    rw [Kernel.framesOf_push]
    refine (Function.update_self ..).trans ?_
    rw [Kernel.framesOf_fork]
    refine congrArg ([Frame.setLevel .on] ++ ·) ?_
    exact (Function.update_of_ne hNe _ _).trans hPoised.frames
  have hDispatched : Dispatched
      ⟨s.interrupt.changeLevel .off,
        (s.rest.fork u).push [.setLevel .on]⟩
      c (ready ++ [u]) :=
    ⟨hQueue, Or.inl hFrames, hPoised.calm.changeLevel .off,
      rfl⟩
  rcases hDispatched.enable dev hFrames with
    ⟨t, hGoes, hNext, hKept⟩
  refine ⟨_, t, ?_, hGoes, hNext, hKept m ?_⟩
  · rw [call, hPoised.on]
    rfl
  · exact ⟨hSetup.numThreads, hSetup.binary, hSetup.tracked,
      hSetup.intact⟩

theorem Poised.newThread
    (hPoised : s.Poised c [])
    {m : Nat}
    (hSetup : s.rest.Setup m)
    (hRoom : m < MaxThread) :
    ∃ t, s.call .newThread = some t ∧ t.Poised c [] ∧
      t.rest.Setup (m + 1) := by
  rcases hSetup.newThread hPoised.queue hRoom with
    ⟨hNext, hQueue⟩
  exact ⟨_, rfl, ⟨hQueue,
    Kernel.framesOf_newThread hPoised.frames, hPoised.calm,
    hPoised.on⟩, hNext⟩

end Sim

end Nachos
