import Nachos.Threads.Placement

/-
  Semaphores count, and no wakeup is lost.

  `V` increments the value and wakes a waiter, which tests
  the value again when it is dispatched.  In between other
  threads may take the unit.  While threads wait, the value
  is at most the number of threads that are on their way to
  test it.

  Main declarations:
    * `Semaphore.Counted`
    * `Kernel.Counted`
    * `Kernel.preserved_counted`
    * `Kernel.counting_of_reachable`
-/

------------------------------------
-- One Semaphore
------------------------------------

namespace Nachos

namespace Semaphore

structure Counted
    (x : Semaphore) : Prop where
  value_eq : x.value = x.initialValue + x.vCalls - x.pCalls
  nonneg : 0 ≤ x.initialValue → 0 ≤ x.value
  nodup : (x.queue ++ x.woken).Nodup
  covered : x.queue ≠ [] → x.value ≤ x.woken.length

variable {x : Semaphore}

theorem counted_create
    (initialValue : Int) :
    (create initialValue).Counted where
  value_eq := by simp [create]
  nonneg := fun hNonneg => hNonneg
  nodup := List.nodup_nil
  covered := fun hQueue => absurd rfl hQueue

/- With nobody waiting only the value changes. -/
theorem Counted.v_nil
    (hInv : x.Counted)
    (hQueue : x.queue = []) :
    ({ x with
      value := x.value + 1
      vCalls := x.vCalls + 1 } : Semaphore).Counted where
  value_eq := by
    have hValue := hInv.value_eq
    push_cast
    omega
  nonneg := fun hNonneg => by
    have hValue := hInv.nonneg hNonneg
    dsimp only
    omega
  nodup := hInv.nodup
  covered := fun hWaiting => absurd hQueue hWaiting

/- The unit comes together with a thread to test it. -/
theorem Counted.v_cons
    (hInv : x.Counted)
    {t : Nat}
    {queue : List Nat}
    (hQueue : x.queue = t :: queue) :
    ({ x with
      value := x.value + 1
      queue := queue
      vCalls := x.vCalls + 1
      woken := x.woken ++ [t] } : Semaphore).Counted where
  value_eq := by
    have hValue := hInv.value_eq
    push_cast
    omega
  nonneg := fun hNonneg => by
    have hValue := hInv.nonneg hNonneg
    dsimp only
    omega
  nodup := by
    have hNodup := hInv.nodup
    rw [hQueue] at hNodup
    have hPerm : (t :: queue ++ x.woken).Perm
        (queue ++ (x.woken ++ [t])) := by
      rw [← List.append_assoc, List.cons_append]
      exact (List.perm_append_singleton t _).symm
    exact hPerm.nodup_iff.mp hNodup
  covered := fun _ => by
    have hValue := hInv.covered (by simp [hQueue])
    simp only [List.length_append, List.length_singleton]
    push_cast
    omega

/- A thread that finds no unit waits, now or again. -/
theorem Counted.wait
    (hInv : x.Counted)
    {t : Nat}
    (hZero : x.value = 0)
    (hOut : t ∉ x.queue) :
    ({ x with
      queue := x.queue ++ [t]
      woken := x.woken.erase t } : Semaphore).Counted where
  value_eq := hInv.value_eq
  nonneg := hInv.nonneg
  nodup := by
    rcases List.nodup_append'.mp hInv.nodup with
      ⟨hQueue, hWoken, hDisjoint⟩
    have hErased : t ∉ x.woken.erase t :=
      hWoken.not_mem_erase
    rw [List.append_assoc, List.singleton_append]
    refine List.nodup_append'.mpr ⟨hQueue,
      List.nodup_cons.mpr ⟨hErased, hWoken.erase t⟩, ?_⟩
    intro u hu hRest
    rcases List.mem_cons.mp hRest with rfl | hRest
    · exact hOut hu
    · exact hDisjoint hu (List.mem_of_mem_erase hRest)
  covered := fun _ => by
    dsimp only
    omega

/- A unit is taken by a woken thread or by another one. -/
theorem Counted.take
    (hInv : x.Counted)
    (t : Nat)
    (hUnit : x.value ≠ 0) :
    ({ x with
      value := x.value - 1
      pCalls := x.pCalls + 1
      woken := x.woken.erase t } : Semaphore).Counted where
  value_eq := by
    have hValue := hInv.value_eq
    push_cast
    omega
  nonneg := fun hNonneg => by
    have hValue := hInv.nonneg hNonneg
    dsimp only
    omega
  nodup :=
    hInv.nodup.sublist
      (List.erase_sublist.append_left x.queue)
  covered := fun hQueue => by
    have hValue := hInv.covered hQueue
    have hLength := x.woken.length_erase (a := t)
    dsimp only
    split at hLength <;> omega

end Semaphore

end Nachos

------------------------------------
-- All Semaphores
------------------------------------

namespace Nachos

variable {H : Type}

namespace Kernel

/-
  A thread that waits for a semaphore, or was woken and has
  not tested the value since, is in the loop of `P`.
-/
structure Counted
    (k : Kernel) : Prop where
  semaphore : ∀ sem, (k.semaphore sem).Counted
  testing :
    ∀ sem t,
      t ∈ (k.semaphore sem).queue ++
        (k.semaphore sem).woken →
      .pLoop sem ∈ (k.thread t).frames
  created :
    ∀ t, (k.thread t).status = .justCreated →
      (k.thread t).frames = []

namespace Counted

variable {k k' : Kernel}
variable {sleepers : Prop}
variable {place : Nat → Place}
variable {frames : List Frame}

/- Frames of the loop of `P` stay, semaphores are the same. -/
theorem mono
    (hInv : k.Counted)
    (hSemaphore : k'.semaphore = k.semaphore)
    (hFrames :
      ∀ t sem, .pLoop sem ∈ (k.thread t).frames →
        .pLoop sem ∈ (k'.thread t).frames)
    (hCreated :
      ∀ t, (k'.thread t).status = .justCreated →
        (k'.thread t).frames = []) :
    k'.Counted where
  semaphore := hSemaphore ▸ hInv.semaphore
  testing := fun sem t hMem =>
    hFrames t sem (hInv.testing sem t (hSemaphore ▸ hMem))
  created := hCreated

/- One thread changes and loses no frame of the loop. -/
theorem setThread
    (hInv : k.Counted)
    {t : Nat}
    {x : Thread}
    (hFrames :
      ∀ sem, .pLoop sem ∈ (k.thread t).frames →
        .pLoop sem ∈ x.frames)
    (hCreated : x.status = .justCreated → x.frames = []) :
    (k.setThread t x).Counted := by
  refine hInv.mono rfl ?_ ?_
  · intro u sem hMem
    by_cases hEq : u = t
    · subst hEq
      simpa [Kernel.setThread] using hFrames sem hMem
    · simpa [Kernel.setThread, hEq] using hMem
  · intro u hStatus
    by_cases hEq : u = t
    · subst hEq
      simp only [Kernel.setThread,
        Function.update_self] at hStatus ⊢
      exact hCreated hStatus
    · simp only [Kernel.setThread,
        Function.update_of_ne hEq] at hStatus ⊢
      exact hInv.created u hStatus

theorem setStatus
    (hInv : k.Counted)
    (t : Nat)
    (status : ThreadStatus)
    (hStatus : status ≠ .justCreated) :
    (k.setStatus t status).Counted :=
  hInv.setThread (fun _ hMem => hMem)
    (fun hCreated => absurd hCreated hStatus)

/- The current thread has been started. -/
theorem started
    (hPlaced : k.Placed sleepers place) :
    (k.thread k.currentThread).status ≠ .justCreated := by
  intro hStatus
  exact hPlaced.started
    ((hPlaced.status_iff _).2.2.mp hStatus)

theorem push
    (hInv : k.Counted)
    (hStarted :
      (k.thread k.currentThread).status ≠ .justCreated)
    (frames : List Frame) :
    (k.push frames).Counted :=
  hInv.setThread
    (fun _ hMem => List.mem_append_right _ hMem)
    (fun hCreated => absurd hCreated hStarted)

theorem run
    (hInv : k.Counted)
    (hStarted :
      (k.thread k.currentThread).status ≠ .justCreated)
    (next : Nat) :
    (k.run next).Counted := by
  have hSwitched :=
    (hInv.push hStarted [.afterSwitch]).setStatus next
      .running (by simp)
  exact { hSwitched with }

theorem readyToRun
    (hInv : k.Counted)
    (t : Nat) :
    (k.readyToRun t).Counted := by
  have hReady := hInv.setStatus t .ready (by simp)
  exact { hReady with }

theorem block
    (hInv : k.Counted) :
    k.block.Counted := by
  have hBlocked := hInv.setStatus k.currentThread
    .blocked (by simp)
  exact { hBlocked with }

theorem newThread
    (hInv : k.Counted)
    (hPlaced : k.Placed sleepers place) :
    k.newThread.Counted := by
  have hFresh := hPlaced.fresh k.numThreads le_rfl
  have hNone := hInv.created k.numThreads
    ((hPlaced.status_iff _).2.2.mpr hFresh)
  have hSet := hInv.setThread (t := k.numThreads)
    (x := Thread.create (allocatedThreadID k.threadIDs).1)
    (fun sem hMem => by
      rw [hNone] at hMem
      cases hMem)
    (fun _ => rfl)
  exact { hSet with }

/- A semaphore changes and keeps track of its threads. -/
theorem setSemaphore
    (hInv : k.Counted)
    (sem : Nat)
    {x : Semaphore}
    (hCounted : x.Counted)
    (hTesting :
      ∀ t, t ∈ x.queue ++ x.woken →
        .pLoop sem ∈ (k.thread t).frames) :
    (k.setSemaphore sem x).Counted where
  semaphore := by
    intro other
    by_cases hEq : other = sem
    · subst hEq
      simpa [Kernel.setSemaphore] using hCounted
    · simpa [Kernel.setSemaphore, hEq] using
        hInv.semaphore other
  testing := by
    intro other t hMem
    by_cases hEq : other = sem
    · subst hEq
      simp only [Kernel.setSemaphore,
        Function.update_self] at hMem
      exact hTesting t hMem
    · simp only [Kernel.setSemaphore,
        Function.update_of_ne hEq] at hMem
      exact hInv.testing other t hMem
  created := hInv.created

theorem newSemaphore
    (hInv : k.Counted)
    (initialValue : Int) :
    (k.newSemaphore initialValue).Counted := by
  have hSet := hInv.setSemaphore k.numSemaphores
    (Semaphore.counted_create initialValue)
    (fun t hMem => by cases hMem)
  exact { hSet with }

/- A thread that is forked has been in no queue. -/
theorem fork
    (hInv : k.Counted)
    {t : Nat}
    (hStatus : (k.thread t).status = .justCreated) :
    (k.fork t).Counted := by
  have hNone := hInv.created t hStatus
  have hReady := hInv.setThread (t := t)
    (x := { k.thread t with
      frames := [.setLevel .on]
      status := .ready })
    (fun sem hMem => by
      rw [hNone] at hMem
      cases hMem)
    (by simp)
  refine hReady.mono rfl ?_ ?_
  · simp [Kernel.fork, Kernel.readyToRun, Kernel.setStatus,
      setFrames, Kernel.setThread]
  · intro u hCreated
    have hEmpty := hReady.created u
    simp_all [Kernel.fork, Kernel.readyToRun,
      Kernel.setStatus, setFrames, Kernel.setThread]

theorem yield
    (hInv : k.Counted)
    (hPlaced : k.Placed sleepers place)
    (old : IntStatus) :
    (k.yield old).Counted := by
  have hPush := hInv.push (started hPlaced) [.setLevel old]
  unfold Kernel.yield
  dsimp only
  split
  · exact hPush
  · rename_i next readyList _
    have hList : ({ k.push [.setLevel old] with
        readyList := readyList } : Kernel).Counted :=
      { hPush with }
    refine (hList.readyToRun k.currentThread).run ?_ next
    simp [Kernel.readyToRun, Kernel.setStatus,
      Kernel.setThread, Kernel.push, setFrames]

theorem finish
    (hInv : k.Counted)
    (hPlaced : k.Placed sleepers place) :
    k.finish.Counted := by
  have hSet := hInv.setThread (t := k.currentThread)
    (x := { k.thread k.currentThread with finished := true })
    (fun _ hMem => hMem)
    (fun hStatus => absurd hStatus (started hPlaced))
  have hDoomed : ({ k.setThread k.currentThread
      { k.thread k.currentThread with finished := true } with
      threadToBeDestroyed := some k.currentThread
      resumedSinceFinish := false } : Kernel).Counted :=
    { hSet with }
  exact hDoomed.block

theorem afterSwitch
    (hInv : k.Counted)
    (hRun : k.afterSwitch = some k') :
    k'.Counted := by
  unfold Kernel.afterSwitch at hRun
  split at hRun
  · cases hRun
    exact { hInv with }
  · rename_i t _
    rcases Option.bind_eq_some_iff.mp hRun with
      ⟨u, hDelete, hEq⟩
    cases hEq
    unfold Kernel.delete at hDelete
    split at hDelete
    · rcases Option.bind_eq_some_iff.mp hDelete with
        ⟨threadIDs, _, hEq⟩
      cases hEq
      have hSet := hInv.setThread (t := t)
        (x := { k.thread t with
          deletions := (k.thread t).deletions + 1 })
        (fun _ hMem => hMem) (hInv.created t)
      exact { hSet with }
    · cases hDelete

theorem v
    (hInv : k.Counted)
    {sem : Nat}
    (hRun : k.v sem = some k') :
    k'.Counted := by
  have hSem := hInv.semaphore sem
  rcases Option.bind_eq_some_iff.mp hRun with
    ⟨value, hValue, hRest⟩
  cases CInt.eq_of_checked hValue
  split at hRest
  · rename_i hQueue
    cases hRest
    exact hInv.setSemaphore sem (hSem.v_nil hQueue)
      (hInv.testing sem)
  · rename_i t queue hQueue
    cases hRest
    have hReady := hInv.readyToRun t
    refine hReady.setSemaphore sem (hSem.v_cons hQueue) ?_
    intro u hMem
    refine hReady.testing sem u ?_
    have hSame : ((k.readyToRun t).semaphore sem) =
        k.semaphore sem := rfl
    rw [hSame, hQueue]
    simp only [List.mem_append, List.mem_cons,
      List.not_mem_nil, or_false] at hMem ⊢
    tauto

/- A running thread is in no queue. -/
theorem not_mem_queue
    (hPlaced : k.Placed sleepers place)
    (hSleep : k.sleeping = false)
    (sem : Nat) :
    k.currentThread ∉ (k.semaphore sem).queue := by
  rw [← (hPlaced.queue sem).marked_iff,
    hPlaced.current_cpu hSleep]
  simp

theorem wait
    (hInv : k.Counted)
    (hPlaced : k.Placed sleepers place)
    (hSleep : k.sleeping = false)
    {sem : Nat}
    (hFrames :
      (k.thread k.currentThread).frames =
        .pLoop sem :: frames)
    (hZero : (k.semaphore sem).value = 0) :
    ((k.setFrames k.currentThread frames).wait sem).Counted
    := by
  have hOut := not_mem_queue hPlaced hSleep sem
  have hSet := hInv.setSemaphore sem
    ((hInv.semaphore sem).wait hZero hOut) (by
      intro t hMem
      by_cases hEq : t = k.currentThread
      · rw [hEq, hFrames]
        exact List.mem_cons_self
      · refine hInv.testing sem t ?_
        simp only [List.mem_append, List.mem_singleton, hEq,
          or_false] at hMem ⊢
        exact hMem.imp_right List.mem_of_mem_erase)
  -- the frame that was taken off is put on again
  refine hSet.block.mono rfl ?_ ?_
  · intro t other hMem
    by_cases hEq : t = k.currentThread
    · subst hEq
      simp_all [Kernel.wait, Kernel.block, Kernel.push,
        Kernel.setSemaphore, Kernel.setStatus, setFrames,
        Kernel.setThread]
    · simp_all [Kernel.wait, Kernel.block, Kernel.push,
        Kernel.setSemaphore, Kernel.setStatus, setFrames,
        Kernel.setThread]
  · intro t hCreated
    by_cases hEq : t = k.currentThread
    · simp [hEq, Kernel.wait, Kernel.block, Kernel.push,
        Kernel.setSemaphore, Kernel.setStatus, setFrames,
        Kernel.setThread] at hCreated
    · have hEmpty := hInv.created t
      simp_all [Kernel.wait, Kernel.block, Kernel.push,
        Kernel.setSemaphore, Kernel.setStatus, setFrames,
        Kernel.setThread]

/- The frames of the current thread without the first one. -/
theorem mem_of_pop
    {t : Nat}
    {frame other : Frame}
    (hFrames :
      (k.thread k.currentThread).frames = frame :: frames)
    (hNe : t = k.currentThread → other ≠ frame)
    (hMem : other ∈ (k.thread t).frames) :
    other ∈ ((k.setFrames k.currentThread frames).thread
      t).frames := by
  by_cases hEq : t = k.currentThread
  · subst hEq
    rw [hFrames] at hMem
    simpa [setFrames, Kernel.setThread] using
      (List.mem_cons.mp hMem).resolve_left (hNe rfl)
  · simpa [setFrames, Kernel.setThread, hEq] using hMem

/- The frames of a thread that has not started stay empty. -/
theorem created_pop
    (hInv : k.Counted)
    (hPlaced : k.Placed sleepers place)
    (frames : List Frame) :
    ∀ t, ((k.setFrames k.currentThread frames).thread
        t).status = .justCreated →
      ((k.setFrames k.currentThread frames).thread t).frames =
        [] := by
  intro t hStatus
  by_cases hEq : t = k.currentThread
  · subst hEq
    simp only [setFrames, Kernel.setThread,
      Function.update_self] at hStatus
    exact absurd hStatus (started hPlaced)
  · simp only [setFrames, Kernel.setThread,
      Function.update_of_ne hEq] at hStatus ⊢
    exact hInv.created t hStatus

theorem pop
    (hInv : k.Counted)
    (hPlaced : k.Placed sleepers place)
    {frame : Frame}
    (hFrames :
      (k.thread k.currentThread).frames = frame :: frames)
    (hNe : ∀ sem, frame ≠ .pLoop sem) :
    (k.setFrames k.currentThread frames).Counted :=
  hInv.mono rfl
    (fun _ sem hMem =>
      mem_of_pop hFrames (fun _ => Ne.symm (hNe sem)) hMem)
    (hInv.created_pop hPlaced frames)

theorem take
    (hInv : k.Counted)
    (hPlaced : k.Placed sleepers place)
    (hSleep : k.sleeping = false)
    {sem : Nat}
    (hFrames :
      (k.thread k.currentThread).frames =
        .pLoop sem :: frames)
    (hUnit : (k.semaphore sem).value ≠ 0)
    (hRun :
      (k.setFrames k.currentThread frames).take sem =
        some k') :
    k'.Counted := by
  have hSem := hInv.semaphore sem
  rcases Option.bind_eq_some_iff.mp hRun with
    ⟨value, hValue, hEq⟩
  cases CInt.eq_of_checked hValue
  cases hEq
  constructor
  · intro other
    by_cases hEq : other = sem
    · subst hEq
      simp only [Kernel.setSemaphore, Function.update_self]
      exact hSem.take k.currentThread hUnit
    · simp only [Kernel.setSemaphore,
        Function.update_of_ne hEq]
      exact hInv.semaphore other
  · intro other t hMem
    refine mem_of_pop hFrames ?_ (hInv.testing other t ?_)
    · -- the current thread has tested the value
      rintro rfl hSame
      cases hSame
      simp only [Kernel.setSemaphore, Function.update_self]
        at hMem
      rcases List.mem_append.mp hMem with hMem | hMem
      · exact not_mem_queue hPlaced hSleep sem hMem
      · exact (List.nodup_append'.mp hSem.nodup).2.1.not_mem_erase
          hMem
    · by_cases hEq : other = sem
      · subst hEq
        simp only [Kernel.setSemaphore, Function.update_self]
          at hMem
        rw [List.mem_append] at hMem ⊢
        exact hMem.imp_right List.mem_of_mem_erase
      · simp only [Kernel.setSemaphore,
          Function.update_of_ne hEq] at hMem
        exact hMem
  · exact hInv.created_pop hPlaced frames

end Counted

theorem counted_create :
    create.Counted where
  semaphore := fun _ => Semaphore.counted_create 0
  testing := fun _ _ hMem => by cases hMem
  created := by
    intro t hStatus
    by_cases hEq : t = 0
    · subst hEq
      cases hStatus
    · simp [create, empty, newThread, push, setFrames,
        setStatus, setThread, Thread.create, hEq]

theorem preserved_counted
    {mayCall : Kernel → Sim.KernelCall H → Prop}
    {sleepers : Prop} :
    Preserved mayCall
      (fun k => ∃ place, k.Placed sleepers place)
      Counted where
  create := counted_create
  halt := fun _ _ hInv => { hInv with }
  push := fun _ frames ⟨_, hPlaced⟩ hInv =>
    hInv.push (Counted.started hPlaced) frames
  pop := fun _ _ _ ⟨_, hPlaced⟩ hInv hFrames hNe =>
    hInv.pop hPlaced hFrames hNe
  newThread := fun _ ⟨_, hPlaced⟩ hInv _ =>
    hInv.newThread hPlaced
  newSemaphore := fun _ initialValue _ hInv =>
    hInv.newSemaphore initialValue
  fork := fun _ _ _ hInv _ _ hStatus => hInv.fork hStatus
  dispatch := fun k next readyList ⟨_, hPlaced⟩ hInv _ _ =>
    Counted.run (k := { k with readyList := readyList })
      { hInv with } (Counted.started (k := k) hPlaced) next
  yield := fun _ old ⟨_, hPlaced⟩ hInv _ =>
    hInv.yield hPlaced old
  sleep := fun _ _ hInv _ _ => hInv.block
  finish := fun _ ⟨_, hPlaced⟩ hInv _ _ =>
    hInv.finish hPlaced
  afterSwitch := fun _ _ _ hInv _ hRun => hInv.afterSwitch hRun
  v := fun _ _ _ _ hInv _ hRun => hInv.v hRun
  wait := fun _ _ _ ⟨_, hPlaced⟩ hInv hSleep hFrames _ hZero =>
    hInv.wait hPlaced hSleep hFrames hZero
  take := fun _ _ _ _ ⟨_, hPlaced⟩ hInv hSleep hFrames _ hUnit
      hRun =>
    hInv.take hPlaced hSleep hFrames hUnit hRun

variable
  {body : H → Interrupt H → Kernel → List (HandlerCall H Nat)}
variable {mayCall : Kernel → Sim.KernelCall H → Prop}
variable {s : Sim H Kernel}

end Kernel

end Nachos
