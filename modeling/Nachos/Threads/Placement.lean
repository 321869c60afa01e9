import Nachos.Threads.Preserved

/-
  Every thread is in one place.

  A primitive moves threads between the CPU, the ready list
  and the queues of semaphores.  A finished thread stays in
  no list, and so does one that went to sleep on its own
  account.

  Main declarations:
    * `Place`
    * `Kernel.Placed`
    * `Kernel.preserved_placed`
    * `Kernel.placement_of_reachable`
-/

------------------------------------
-- Places
------------------------------------

namespace Nachos

open Ownership

inductive Place where
  | created
  | cpu
  | ready
  | queue (sem : Nat)
  | finished
  | asleep
  deriving DecidableEq

/- The status of a thread in a place. -/
def Place.status :
    Place → ThreadStatus
| .created => .justCreated
| .cpu => .running
| .ready => .ready
| _ => .blocked

/- What a thread records fits the place that it is in. -/
structure Thread.At
    (x : Thread)
    (p : Place) : Prop where
  status : x.status = p.status
  finished : x.finished = true ↔ p = .finished
  deleted : x.deletions ≠ 0 → p = .finished

namespace Kernel

/-
  The lists hold the threads that are in their places.  While
  the current thread is in the loop of `Sleep`, no thread is
  on the CPU.  The parameter says whether threads may go to
  sleep on their own account.
-/
structure Placed
    (k : Kernel)
    (sleepers : Prop)
    (place : Nat → Place) : Prop where
  thread : ∀ t, (k.thread t).At (place t)
  cpu :
    ∀ t, place t = .cpu ↔
      t = k.currentThread ∧ k.sleeping = false
  ready : Tracks (fun t => place t = .ready) k.readyList
  queue :
    ∀ sem, Tracks (fun t => place t = .queue sem)
      (k.semaphore sem).queue
  started : place k.currentThread ≠ .created
  current_kept :
    (k.thread k.currentThread).deletions = 0
  doomed :
    ∀ t, k.threadToBeDestroyed = some t →
      place t = .finished
  asleep : ∀ t, place t = .asleep → sleepers
  fresh : ∀ t, k.numThreads ≤ t → place t = .created
  fresh_queue :
    ∀ sem, k.numSemaphores ≤ sem →
      (k.semaphore sem).queue = []

/- The placement at a point outside of the primitives. -/
structure WellPlaced
    (k : Kernel) : Prop where
  running :
    ∀ t, (k.thread t).status = .running ↔
      t = k.currentThread
  ready :
    ∀ t, (k.thread t).status = .ready →
      k.readyList.count t = 1 ∧
      ∀ sem, t ∉ (k.semaphore sem).queue
  blocked :
    ∀ t, (k.thread t).status = .blocked →
      t ∉ k.readyList ∧
      ((∃ sem, sem < k.numSemaphores ∧
          (k.semaphore sem).queue.count t = 1 ∧
          (k.thread t).finished = false ∧
          ∀ other, other ≠ sem →
            t ∉ (k.semaphore other).queue) ∨
        ((k.thread t).finished = true ∧
          ∀ sem, t ∉ (k.semaphore sem).queue))
  justCreated :
    ∀ t, (k.thread t).status = .justCreated →
      t ∉ k.readyList ∧
      ∀ sem, t ∉ (k.semaphore sem).queue
  deleted :
    ∀ t, (k.thread t).deletions ≠ 0 →
      t ∉ k.readyList ∧
      (∀ sem, t ∉ (k.semaphore sem).queue) ∧
      t ≠ k.currentThread

end Kernel

end Nachos

------------------------------------
-- Operations Move Threads
------------------------------------

namespace Nachos

open Ownership

/- Changing the frames of a thread does not move it. -/
theorem Thread.At.withFrames
    {x : Thread}
    {p : Place}
    (hAt : x.At p)
    (frames : List Frame) :
    ({ x with frames := frames } : Thread).At p :=
  ⟨hAt.status, hAt.finished, hAt.deleted⟩

/- A thread that has not finished moves with its status. -/
theorem Thread.At.move
    {x : Thread}
    {p : Place}
    (hAt : x.At p)
    (q : Place)
    (hp : p ≠ .finished)
    (hq : q ≠ .finished) :
    ({ x with status := q.status } : Thread).At q where
  status := rfl
  finished := by
    simp [hAt.finished, hp, hq]
  deleted := fun hDeleted =>
    absurd (hAt.deleted hDeleted) hp

/- One thread changes together with its place. -/
theorem Thread.at_update
    {thread : Nat → Thread}
    {place : Nat → Place}
    (hAt : ∀ t, (thread t).At (place t))
    (t : Nat)
    {x : Thread}
    {p : Place}
    (hNew : x.At p) :
    ∀ u, (Function.update thread t x u).At
      (Function.update place t p u) := by
  intro u
  by_cases hEq : u = t
  · subst hEq
    rw [Function.update_self, Function.update_self]
    exact hNew
  · rw [Function.update_of_ne hEq, Function.update_of_ne hEq]
    exact hAt u

namespace Kernel

/-
  The ready list may be changed before or after the current
  thread is put on it.
-/
theorem run_readyToRun
    (k : Kernel)
    (next t : Nat)
    (readyList : List Nat) :
    ({ k with readyList := readyList }.readyToRun t).run next =
      ({ ({ k.readyToRun t with sleeping := true } : Kernel) with
        readyList := readyList ++ [t] } : Kernel).run next := by
  simp only [run, readyToRun, push, setStatus, setFrames,
    setThread]

namespace Placed

variable {k k' : Kernel}
variable {sleepers : Prop}
variable {place : Nat → Place}
variable {t : Nat}

theorem deletions_eq_zero
    (hInv : k.Placed sleepers place)
    (hNe : place t ≠ .finished) :
    (k.thread t).deletions = 0 := by
  by_contra hDeleted
  exact hNe ((hInv.thread t).deleted hDeleted)

theorem current_cpu
    (hInv : k.Placed sleepers place)
    (hSleep : k.sleeping = false) :
    place k.currentThread = .cpu :=
  (hInv.cpu _).mpr ⟨rfl, hSleep⟩

theorem setFrames
    (hInv : k.Placed sleepers place)
    (t : Nat)
    (frames : List Frame) :
    (k.setFrames t frames).Placed sleepers place := by
  refine { hInv with thread := ?_, current_kept := ?_ }
  · have hAt := Thread.at_update hInv.thread t
      ((hInv.thread t).withFrames frames)
    rwa [Function.update_eq_self] at hAt
  · have hKept := hInv.current_kept
    by_cases hEq : k.currentThread = t
    · simpa [Kernel.setFrames, setThread, ← hEq] using hKept
    · simpa [Kernel.setFrames, setThread, hEq] using hKept

theorem push
    (hInv : k.Placed sleepers place)
    (frames : List Frame) :
    (k.push frames).Placed sleepers place :=
  hInv.setFrames _ _

/- What moves was not to be destroyed. -/
theorem doomed_update
    (hInv : k.Placed sleepers place)
    (hNe : place t ≠ .finished)
    (p : Place) :
    ∀ u, k.threadToBeDestroyed = some u →
      Function.update place t p u = .finished := by
  intro u hDoomed
  have hPlace := hInv.doomed u hDoomed
  have hOther : u ≠ t := by
    rintro rfl
    exact hNe hPlace
  rw [Function.update_of_ne hOther, hPlace]

theorem asleep_update
    (hInv : k.Placed sleepers place)
    (t : Nat)
    {p : Place}
    (hAsleep : p = .asleep → sleepers) :
    ∀ u, Function.update place t p u = .asleep →
      sleepers := by
  intro u hPlace
  by_cases hEq : u = t
  · rw [hEq, Function.update_self] at hPlace
    exact hAsleep hPlace
  · rw [Function.update_of_ne hEq] at hPlace
    exact hInv.asleep u hPlace

/- Only threads that exist move. -/
theorem fresh_update
    (hInv : k.Placed sleepers place)
    (hLt : t < k.numThreads)
    (p : Place) :
    ∀ u, k.numThreads ≤ u →
      Function.update place t p u = .created := by
  intro u hLe
  rw [Function.update_of_ne (by omega), hInv.fresh u hLe]

theorem lt_of_ne_created
    (hInv : k.Placed sleepers place)
    (hNe : place t ≠ .created) :
    t < k.numThreads := by
  by_contra hLe
  exact hNe (hInv.fresh t (not_lt.mp hLe))

/- A new thread is in no list. -/
theorem newThread
    (hInv : k.Placed sleepers place) :
    k.newThread.Placed sleepers place := by
  have hFresh := hInv.fresh k.numThreads le_rfl
  have hNe : k.currentThread ≠ k.numThreads := by
    intro hEq
    exact hInv.started (hEq ▸ hFresh)
  refine
    { hInv with
      thread := ?_
      current_kept := ?_
      fresh := fun t hLe =>
        hInv.fresh t (Nat.le_of_succ_le hLe) }
  · have hNew : (Thread.create
        (allocatedThreadID k.threadIDs).1).At
        (place k.numThreads) := by
      rw [hFresh]
      constructor <;> simp [Thread.create, Place.status]
    have hAt := Thread.at_update hInv.thread k.numThreads
      hNew
    rwa [Function.update_eq_self] at hAt
  · have hSame := Function.update_of_ne hNe
      (Thread.create (allocatedThreadID k.threadIDs).1)
      k.thread
    exact (congrArg Thread.deletions hSame).trans
      hInv.current_kept

/- Only the queue of a semaphore matters. -/
theorem setSemaphore
    (hInv : k.Placed sleepers place)
    (sem : Nat)
    (semaphore : Semaphore)
    (hQueue : semaphore.queue = (k.semaphore sem).queue) :
    (k.setSemaphore sem semaphore).Placed sleepers place := by
  have hSame : ∀ other,
      ((k.setSemaphore sem semaphore).semaphore other).queue =
        (k.semaphore other).queue := by
    intro other
    by_cases hEq : other = sem
    · simp [Kernel.setSemaphore, hEq, hQueue]
    · simp [Kernel.setSemaphore, hEq]
  exact
    { hInv with
      queue := fun other => hSame other ▸ hInv.queue other
      fresh_queue := fun other hLe =>
        (hSame other).trans (hInv.fresh_queue other hLe) }

/- A new semaphore has no waiters. -/
theorem newSemaphore
    (hInv : k.Placed sleepers place)
    (initialValue : Int) :
    (k.newSemaphore initialValue).Placed sleepers place := by
  have hEmpty := hInv.fresh_queue k.numSemaphores le_rfl
  have hSet := hInv.setSemaphore k.numSemaphores
    (Semaphore.create initialValue) hEmpty.symm
  exact
    { hSet with
      fresh_queue := fun sem hLe =>
        hSet.fresh_queue sem (Nat.le_of_succ_le hLe) }

/-
  A thread that is not current becomes ready; it leaves the
  queue it was in, if any.
-/
theorem wake
    (hInv : k.Placed sleepers place)
    {semaphore : Nat → Semaphore}
    (hLt : t < k.numThreads)
    (hFinished : place t ≠ .finished)
    (hCpu : place t ≠ .cpu)
    (hReady : place t ≠ .ready)
    (hQueue :
      ∀ sem, Tracks
        (fun u => Function.update place t .ready u =
          .queue sem)
        (semaphore sem).queue)
    (hFresh :
      ∀ sem, k.numSemaphores ≤ sem →
        (semaphore sem).queue = []) :
    ({ k.readyToRun t with
      semaphore := semaphore } : Kernel).Placed sleepers
        (Function.update place t .ready) where
  thread :=
    Thread.at_update hInv.thread t
      ((hInv.thread t).move .ready hFinished (by simp))
  cpu := by
    intro u
    refine Iff.trans ?_ (hInv.cpu u)
    by_cases hEq : u = t
    · subst hEq
      simp [hCpu]
    · rw [Function.update_of_ne hEq]
  ready := hInv.ready.arrive hReady
  queue := hQueue
  started := by
    by_cases hEq : k.currentThread = t
    · simp [readyToRun, setStatus, setThread, hEq]
    · simpa [readyToRun, setStatus, setThread, hEq] using
        hInv.started
  current_kept := by
    by_cases hEq : k.currentThread = t
    · simpa [readyToRun, setStatus, setThread, hEq] using
        hEq ▸ hInv.current_kept
    · simpa [readyToRun, setStatus, setThread, hEq] using
        hInv.current_kept
  doomed := hInv.doomed_update hFinished _
  asleep := hInv.asleep_update t (by simp)
  fresh := hInv.fresh_update hLt _
  fresh_queue := hFresh

theorem place_of_justCreated
    (hInv : k.Placed sleepers place)
    (hStatus : (k.thread t).status = .justCreated) :
    place t = .created := by
  have hAt := (hInv.thread t).status
  rw [hStatus] at hAt
  cases hPlace : place t with
  | created => rfl
  | _ =>
      rw [hPlace] at hAt
      cases hAt

theorem fork
    (hInv : k.Placed sleepers place)
    (hLt : t < k.numThreads)
    (hStatus : (k.thread t).status = .justCreated) :
    (k.fork t).Placed sleepers
      (Function.update place t .ready) := by
  have hPlace := hInv.place_of_justCreated hStatus
  have hStack := hInv.setFrames t [.setLevel .on]
  refine hStack.wake hLt (by simp [hPlace]) (by simp [hPlace])
    (by simp [hPlace]) ?_ hStack.fresh_queue
  intro sem
  exact (hInv.queue sem).elsewhere (by simp [hPlace]) (by simp)

/- `V` moves the first waiter to the ready list. -/
theorem v
    (hInv : k.Placed sleepers place)
    {sem : Nat}
    (hLt : sem < k.numSemaphores)
    (hRun : k.v sem = some k') :
    ∃ place', k'.Placed sleepers place' := by
  rcases Option.bind_eq_some_iff.mp hRun with
    ⟨value, _, hRest⟩
  split at hRest
  · cases hRest
    exact ⟨place, hInv.setSemaphore _ _ rfl⟩
  · rename_i t queue hQueue
    cases hRest
    have hWaits := hInv.queue sem
    rw [hQueue] at hWaits
    have hPlace : place t = .queue sem :=
      (hWaits.marked_iff t).mpr List.mem_cons_self
    refine ⟨_, hInv.wake (hInv.lt_of_ne_created
      (by simp [hPlace])) (by simp [hPlace]) (by simp [hPlace])
      (by simp [hPlace]) ?_ ?_⟩
    · intro other
      by_cases hEq : other = sem
      · subst hEq
        rw [Function.update_self]
        exact hWaits.depart (by simp)
      · rw [Function.update_of_ne hEq]
        exact (hInv.queue other).elsewhere
          (by simp [hPlace, Ne.symm hEq]) (by simp)
    · intro other hLe
      rw [Function.update_of_ne (by omega)]
      exact hInv.fresh_queue other hLe

/- A ready thread gets the CPU when none is on it. -/
theorem dispatch
    (hInv : k.Placed sleepers place)
    {next : Nat}
    {readyList : List Nat}
    (hSleep : k.sleeping = true)
    (hReady : k.readyList = next :: readyList) :
    ({ k with readyList := readyList }.run next).Placed sleepers
      (Function.update place next .cpu) := by
  have hStack := hInv.push [.afterSwitch]
  have hList := hInv.ready
  rw [hReady] at hList
  have hPlace : place next = .ready :=
    (hList.marked_iff next).mpr List.mem_cons_self
  exact
    { thread :=
        Thread.at_update hStack.thread next
          ((hStack.thread next).move .cpu (by simp [hPlace])
            (by simp))
      cpu := by
        intro t
        by_cases hEq : t = next
        · simp [hEq, run]
        · have hIff := hInv.cpu t
          simp only [hSleep, Bool.true_eq_false, and_false,
            iff_false] at hIff
          simp [hEq, run, hIff]
      ready := hList.depart (by simp)
      queue := fun sem =>
        (hInv.queue sem).elsewhere (by simp [hPlace]) (by simp)
      started := by simp [run]
      current_kept := by
        have hKept := hStack.deletions_eq_zero (t := next)
          (by simp [hPlace])
        simp only [run, setStatus, setThread,
          Function.update_self]
        exact hKept
      doomed := hInv.doomed_update (by simp [hPlace]) _
      asleep := hInv.asleep_update _ (by simp)
      fresh := hInv.fresh_update (hInv.lt_of_ne_created
        (by simp [hPlace])) _
      fresh_queue := hInv.fresh_queue }

/- The current thread leaves the CPU for the ready list. -/
theorem readyCurrent
    (hInv : k.Placed sleepers place)
    (hSleep : k.sleeping = false) :
    ({ k.readyToRun k.currentThread with
      sleeping := true } : Kernel).Placed sleepers
        (Function.update place k.currentThread .ready) := by
  have hPlace := hInv.current_cpu hSleep
  exact
    { thread :=
        Thread.at_update hInv.thread _
          ((hInv.thread _).move .ready (by simp [hPlace])
            (by simp))
      cpu := by
        intro t
        by_cases hEq : t = k.currentThread
        · simp [hEq]
        · simp [hEq, hInv.cpu]
      ready := hInv.ready.arrive (by simp [hPlace])
      queue := fun sem =>
        (hInv.queue sem).elsewhere (by simp [hPlace]) (by simp)
      started := by simp [readyToRun, setStatus, setThread]
      current_kept := by
        simp only [readyToRun, setStatus, setThread,
          Function.update_self]
        exact hInv.current_kept
      doomed := hInv.doomed_update (by simp [hPlace]) _
      asleep := hInv.asleep_update _ (by simp)
      fresh := hInv.fresh_update (hInv.lt_of_ne_created
        (by simp [hPlace])) _
      fresh_queue := hInv.fresh_queue }

theorem yield
    (hInv : k.Placed sleepers place)
    (old : IntStatus)
    (hSleep : k.sleeping = false) :
    ∃ place', (k.yield old).Placed sleepers place' := by
  have hStack := hInv.push [.setLevel old]
  unfold Kernel.yield
  dsimp only
  split
  · exact ⟨place, hStack⟩
  · rename_i next readyList hReady
    have hSwap := hStack.readyCurrent hSleep
    have hList :
        ((k.push [.setLevel old]).readyToRun
          k.currentThread).readyList =
        next :: (readyList ++ [k.currentThread]) := by
      rw [← List.cons_append, ← hReady]
      rfl
    rw [run_readyToRun]
    exact ⟨_, hSwap.dispatch rfl hList⟩

/-
  The current thread blocks: it goes from the CPU to a queue
  or retires.
-/
theorem block
    (hInv : k.Placed sleepers place)
    (hSleep : k.sleeping = false)
    {x : Thread}
    {p : Place}
    (semaphore : Nat → Semaphore)
    (doomed : Option Nat)
    (resumed : Bool)
    (hAt : x.At p)
    (hBlocked : p.status = .blocked)
    (hAsleep : p = .asleep → sleepers)
    (hKept : x.deletions = 0)
    (hQueue :
      ∀ sem, Tracks
        (fun u => Function.update place k.currentThread p u =
          .queue sem)
        (semaphore sem).queue)
    (hFresh :
      ∀ sem, k.numSemaphores ≤ sem →
        (semaphore sem).queue = [])
    (hDoomed :
      ∀ t, doomed = some t →
        Function.update place k.currentThread p t =
          .finished) :
    ({ k.setThread k.currentThread x with
      semaphore := semaphore
      threadToBeDestroyed := doomed
      sleeping := true
      resumedSinceFinish := resumed } : Kernel).Placed sleepers
        (Function.update place k.currentThread p) := by
  have hPlace := hInv.current_cpu hSleep
  have hNe : p ≠ .cpu ∧ p ≠ .ready ∧ p ≠ .created := by
    refine ⟨?_, ?_, ?_⟩ <;> rintro rfl <;> cases hBlocked
  exact
    { thread := Thread.at_update hInv.thread _ hAt
      cpu := by
        intro t
        by_cases hEq : t = k.currentThread
        · simp [hEq, hNe.1]
        · simp [hEq, hInv.cpu]
      ready :=
        hInv.ready.elsewhere (by simp [hPlace]) hNe.2.1
      queue := hQueue
      started := by simp [setThread, hNe.2.2]
      current_kept := by simp [setThread, hKept]
      doomed := hDoomed
      asleep := hInv.asleep_update _ hAsleep
      fresh := hInv.fresh_update (hInv.lt_of_ne_created
        (by simp [hPlace])) _
      fresh_queue := hFresh }

/- The current thread waits for a semaphore. -/
theorem wait
    (hInv : k.Placed sleepers place)
    (hSleep : k.sleeping = false)
    {sem : Nat}
    (hLt : sem < k.numSemaphores) :
    (k.wait sem).Placed sleepers
      (Function.update place k.currentThread (.queue sem))
    := by
  have hStack := hInv.push [.pLoop sem]
  have hPlace := hStack.current_cpu hSleep
  have hAt := (hStack.thread (k.push
    [.pLoop sem]).currentThread).move (.queue sem)
    (by simp [hPlace]) (by simp)
  have hBlock := hStack.block hSleep
    (Function.update k.semaphore sem
      { k.semaphore sem with
        queue := (k.semaphore sem).queue ++ [k.currentThread]
        woken :=
          (k.semaphore sem).woken.erase k.currentThread })
    k.threadToBeDestroyed k.resumedSinceFinish hAt rfl
    (by simp) hStack.current_kept ?_ ?_ (hStack.doomed_update (by simp [hPlace]) _)
  · exact hBlock
  · intro other
    by_cases hEq : other = sem
    · subst hEq
      rw [Function.update_self]
      exact (hInv.queue other).arrive (by simp [hPlace])
    · rw [Function.update_of_ne hEq]
      exact (hInv.queue other).elsewhere (by simp [hPlace])
        (by simp [Ne.symm hEq])
  · intro other hLe
    have hOther : other ≠ sem := by
      rintro rfl
      exact absurd hLt (not_lt.mpr hLe)
    rw [Function.update_of_ne hOther]
    exact hInv.fresh_queue other hLe

theorem take
    (hInv : k.Placed sleepers place)
    {sem : Nat}
    (hRun : k.take sem = some k') :
    k'.Placed sleepers place := by
  rcases Option.bind_eq_some_iff.mp hRun with
    ⟨value, _, hRest⟩
  cases hRest
  exact hInv.setSemaphore _ _ rfl

/- A finished thread leaves the CPU for good. -/
theorem finish
    (hInv : k.Placed sleepers place)
    (hSleep : k.sleeping = false) :
    k.finish.Placed sleepers
      (Function.update place k.currentThread .finished) := by
  have hPlace := hInv.current_cpu hSleep
  have hAt : ({ k.thread k.currentThread with
      finished := true
      status := .blocked } : Thread).At .finished :=
    ⟨rfl, by simp, by simp⟩
  have hBlock := hInv.block hSleep k.semaphore
    (some k.currentThread) false hAt rfl (by simp)
    hInv.current_kept
    (fun sem => (hInv.queue sem).elsewhere (by simp [hPlace])
      (by simp))
    hInv.fresh_queue (by
      rintro t ⟨⟩
      exact Function.update_self ..)
  simpa [Kernel.finish, Kernel.block, setStatus, setThread]
    using hBlock

/- So does one that goes to sleep by itself. -/
theorem sleep
    (hInv : k.Placed sleepers place)
    (hSleep : k.sleeping = false)
    (hMay : sleepers) :
    k.block.Placed sleepers
      (Function.update place k.currentThread .asleep) := by
  have hPlace := hInv.current_cpu hSleep
  have hAt := (hInv.thread k.currentThread).move .asleep
    (by simp [hPlace]) (by simp)
  exact hInv.block hSleep k.semaphore k.threadToBeDestroyed
    k.resumedSinceFinish hAt rfl (fun _ => hMay)
    hInv.current_kept
    (fun sem => (hInv.queue sem).elsewhere (by simp [hPlace])
      (by simp))
    hInv.fresh_queue
    (hInv.doomed_update (by simp [hPlace]) _)

/- A thread that is on the CPU is not to be destroyed. -/
theorem doomed_ne
    (hInv : k.Placed sleepers place)
    (hSleep : k.sleeping = false)
    (hDoomed : k.threadToBeDestroyed = some t) :
    t ≠ k.currentThread := by
  rintro rfl
  have hFinished := hInv.doomed _ hDoomed
  rw [hInv.current_cpu hSleep] at hFinished
  cases hFinished

theorem afterSwitch
    (hInv : k.Placed sleepers place)
    (hSleep : k.sleeping = false)
    (hRun : k.afterSwitch = some k') :
    k'.Placed sleepers place := by
  unfold Kernel.afterSwitch at hRun
  split at hRun
  · cases hRun
    exact { hInv with }
  · rename_i t hDoomed
    have hNe := hInv.doomed_ne hSleep hDoomed
    rcases Option.bind_eq_some_iff.mp hRun with
      ⟨u, hDelete, hEq⟩
    cases hEq
    unfold Kernel.delete at hDelete
    rw [if_pos hNe] at hDelete
    rcases Option.bind_eq_some_iff.mp hDelete with
      ⟨threadIDs, _, hEq⟩
    cases hEq
    have hAt := hInv.thread t
    have hPlace := hInv.doomed t hDoomed
    have hNew : ({ k.thread t with
        deletions := (k.thread t).deletions + 1 } :
        Thread).At (place t) :=
      ⟨hAt.status, hAt.finished, fun _ => hPlace⟩
    have hThreads := Thread.at_update hInv.thread t hNew
    rw [Function.update_eq_self] at hThreads
    exact
      { hInv with
        thread := hThreads
        current_kept := by
          simp only [setThread,
            Function.update_of_ne (Ne.symm hNe)]
          exact hInv.current_kept
        doomed := by simp }

end Placed

end Kernel

end Nachos

------------------------------------
-- Every Run
------------------------------------

namespace Nachos

variable {H : Type}

namespace Kernel

theorem placed_create
    (sleepers : Prop) :
    create.Placed sleepers fun t =>
      if t = 0 then .cpu else .created where
  thread := by
    intro t
    by_cases hEq : t = 0
    · subst hEq
      constructor <;> simp [create, empty, Kernel.newThread,
        Kernel.push, Kernel.setFrames, setStatus, setThread,
        Thread.create, Place.status]
    · constructor <;> simp [create, empty, Kernel.newThread,
        Kernel.push, Kernel.setFrames, setStatus, setThread,
        Thread.create, Place.status, hEq]
  cpu := by
    intro t
    by_cases hEq : t = 0
    · subst hEq
      exact ⟨fun _ => ⟨rfl, rfl⟩, fun _ => rfl⟩
    · rw [if_neg hEq]
      refine ⟨nofun, ?_⟩
      rintro ⟨hCurrent, _⟩
      exact absurd hCurrent hEq
  ready := ⟨List.nodup_nil, fun t => by
    by_cases hEq : t = 0 <;>
      simp [hEq, create, empty, Kernel.newThread, Kernel.push,
        Kernel.setFrames, setStatus, setThread]⟩
  queue := fun sem => ⟨List.nodup_nil, fun t => by
    by_cases hEq : t = 0 <;>
      simp [hEq, create, empty, Kernel.newThread, Kernel.push,
        Kernel.setFrames, setStatus, setThread,
        Semaphore.create]⟩
  started := by
    simp [create, empty, Kernel.newThread, Kernel.push,
      Kernel.setFrames, setStatus, setThread]
  current_kept := rfl
  doomed := by
    rintro t ⟨⟩
  asleep := by
    intro t
    by_cases hEq : t = 0 <;> simp [hEq]
  fresh := by
    intro t hLe
    exact if_neg (Nat.one_le_iff_ne_zero.mp hLe)
  fresh_queue := fun _ _ => rfl

/- The status and the place say the same. -/
theorem Placed.status_iff
    {k : Kernel}
    {sleepers : Prop}
    {place : Nat → Place}
    (hInv : k.Placed sleepers place)
    (t : Nat) :
    ((k.thread t).status = .running ↔ place t = .cpu) ∧
    ((k.thread t).status = .ready ↔ place t = .ready) ∧
    ((k.thread t).status = .justCreated ↔
      place t = .created) := by
  rw [(hInv.thread t).status]
  cases place t <;> simp [Place.status]

/-
  If no thread goes to sleep by itself, a thread that blocks
  waits for a semaphore or has finished.
-/
theorem Placed.wellPlaced
    {k : Kernel}
    {place : Nat → Place}
    (hInv : k.Placed False place)
    (hSleep : k.sleeping = false) :
    k.WellPlaced where
  running := by
    intro t
    rw [(hInv.status_iff t).1, hInv.cpu]
    simp [hSleep]
  ready := by
    intro t hStatus
    have hPlace := (hInv.status_iff t).2.1.mp hStatus
    refine ⟨?_, ?_⟩
    · exact List.count_eq_one_of_mem hInv.ready.nodup
        ((hInv.ready.marked_iff t).mp hPlace)
    · intro sem
      rw [← (hInv.queue sem).marked_iff, hPlace]
      simp
  blocked := by
    intro t hStatus
    have hFinished := (hInv.thread t).finished
    have hAt := (hInv.thread t).status
    rw [hStatus] at hAt
    rw [← hInv.ready.marked_iff]
    simp only [← (hInv.queue _).marked_iff]
    cases hPlace : place t with
    | queue sem =>
        have hMem := ((hInv.queue sem).marked_iff t).mp hPlace
        refine ⟨by simp, Or.inl ⟨sem, ?_, ?_, ?_, ?_⟩⟩
        · by_contra hLe
          rw [hInv.fresh_queue sem (not_lt.mp hLe)] at hMem
          cases hMem
        · exact List.count_eq_one_of_mem (hInv.queue sem).nodup
            hMem
        · simpa [hPlace] using hFinished
        · intro other hNe
          simpa using Ne.symm hNe
    | finished =>
        refine ⟨by simp, Or.inr ⟨?_, by simp⟩⟩
        exact hFinished.mpr hPlace
    | asleep => exact (hInv.asleep t hPlace).elim
    | _ =>
        rw [hPlace] at hAt
        cases hAt
  justCreated := by
    intro t hStatus
    have hPlace := (hInv.status_iff t).2.2.mp hStatus
    rw [← hInv.ready.marked_iff]
    simp [← (hInv.queue _).marked_iff, hPlace]
  deleted := by
    intro t hDeleted
    have hPlace := (hInv.thread t).deleted hDeleted
    rw [← hInv.ready.marked_iff]
    refine ⟨by simp [hPlace], ?_, ?_⟩
    · intro sem
      rw [← (hInv.queue sem).marked_iff, hPlace]
      simp
    · rintro rfl
      exact hDeleted hInv.current_kept

theorem preserved_placed
    {mayCall : Kernel → Sim.KernelCall H → Prop}
    (sleepers : Prop)
    (hSleepers : ∀ k, mayCall k .sleep → sleepers) :
    Preserved mayCall (fun _ => True)
      fun k => ∃ place, k.Placed sleepers place where
  create := ⟨_, placed_create sleepers⟩
  halt := fun _ _ ⟨place, hInv⟩ => ⟨place, { hInv with }⟩
  push := fun _ frames _ ⟨place, hInv⟩ =>
    ⟨place, hInv.push frames⟩
  pop := fun _ _ frames _ ⟨place, hInv⟩ _ _ =>
    ⟨place, hInv.setFrames _ frames⟩
  newThread := fun _ _ ⟨place, hInv⟩ _ =>
    ⟨place, hInv.newThread⟩
  newSemaphore := fun _ initialValue _ ⟨place, hInv⟩ =>
    ⟨place, hInv.newSemaphore initialValue⟩
  fork := fun _ _ _ ⟨_, hInv⟩ _ hLt hStatus =>
    ⟨_, hInv.fork hLt hStatus⟩
  dispatch := fun _ _ _ _ ⟨_, hInv⟩ hSleep hReady =>
    ⟨_, hInv.dispatch hSleep hReady⟩
  yield := fun _ old _ ⟨_, hInv⟩ hSleep =>
    hInv.yield old hSleep
  sleep := fun k _ ⟨_, hInv⟩ hOut hMay =>
    ⟨_, hInv.sleep hOut.1 (hSleepers k hMay)⟩
  finish := fun _ _ ⟨_, hInv⟩ hOut _ =>
    ⟨_, hInv.finish hOut.1⟩
  afterSwitch := fun _ _ _ ⟨_, hInv⟩ hSleep hRun =>
    ⟨_, hInv.afterSwitch hSleep hRun⟩
  v := fun _ _ _ _ ⟨_, hInv⟩ hLt hRun => hInv.v hLt hRun
  wait := fun _ _ frames _ ⟨_, hInv⟩ hSleep _ hLt _ =>
    ⟨_, (hInv.setFrames _ frames).wait hSleep hLt⟩
  take := fun _ _ frames _ _ ⟨_, hInv⟩ _ _ _ _ hRun =>
    ⟨_, (hInv.setFrames _ frames).take hRun⟩

/- No thread goes to sleep by itself. -/
def NoSleep
    (_ : Kernel) :
    Sim.KernelCall H → Prop
| .sleep => False
| _ => True

instance
    (k : Kernel)
    (c : Sim.KernelCall H) :
    Decidable (NoSleep k c) :=
  match c with
  | .sleep => isFalse id
  | .newThread | .newSemaphore _ | .fork _ | .yield | .finish
  | .p _ | .v _ | .setLevel _ | .oneTick | .setStatus _
  | .schedule _ _ _ => isTrue trivial

variable
  {body : H → Interrupt H → Kernel → List (HandlerCall H Nat)}
variable {s : Sim H Kernel}

/-
  Outside of the primitives every thread is in its place, and
  `Scheduler::Run` never deletes the current thread.
-/
theorem placement_of_reachable
    (hReach :
      (Sim.kernel (kernelDevice body) NoSleep).Reachable s) :
    (s.rest.Outside → s.rest.WellPlaced) ∧
      (s.rest.sleeping = false →
        s.rest.threadToBeDestroyed ≠
          some s.rest.currentThread) := by
  have hSleepers : ∀ k,
      NoSleep (H := H) k .sleep → False :=
    fun _ hMay => hMay
  rcases (preserved_placed _ hSleepers).of_reachable hReach with
    ⟨place, hInv⟩
  refine ⟨fun hOut => hInv.wellPlaced hOut.1, ?_⟩
  intro hSleep hDoomed
  exact hInv.doomed_ne hSleep hDoomed rfl

/- Main waits for a semaphore while the other thread runs. -/
theorem placement_of_waiting_main :
    ∃ s, (Sim.kernel Sim.quietDevice NoSleep).Reachable s ∧
      s.rest.Outside ∧
      (s.rest.thread 0).status = .blocked ∧
      (s.rest.semaphore 0).queue = [0] ∧
      s.rest.WellPlaced := by
  have hRun : ((Sim.kernel Sim.quietDevice NoSleep).attempt
      Sim.quiet
      [.advance, .advance, .call (.newSemaphore 0),
        .call .newThread, .call (.fork 1), .advance, .advance,
        .call (.p 0), .advance, .advance, .advance,
        .advance]).any (fun s =>
          s.rest.Outside ∧
          (s.rest.thread 0).status = .blocked ∧
          (s.rest.semaphore 0).queue = [0]) = true := by
    decide +kernel
  rcases (Option.any_eq_true _ _).mp hRun with
    ⟨s, hAttempt, hState⟩
  rw [decide_eq_true_eq] at hState
  have hReach :=
    (Sim.reachable_quiet NoSleep).of_attempt hAttempt
  exact ⟨s, hReach, hState.1, hState.2.1, hState.2.2,
    (placement_of_reachable hReach).1 hState.1⟩

end Kernel

end Nachos
