import Nachos.Threads.Placement

/-
  How finished threads are reclaimed.

  `Finish` leaves the thread in `threadToBeDestroyed`, and
  the next thread that comes back from `SWITCH` inside of
  `Scheduler::Run` deletes it.  A thread that is dispatched
  for the first time begins in `ThreadRoot` instead, and if
  it finishes, it overwrites `threadToBeDestroyed`.

  Main declarations:
    * `Ledger`
    * `Ledger.Reclaimed`
    * `Kernel.kept_ledger`
    * `Kernel.reclaimed_of_reachable`
    * `Kernel.finish_overwrites`
-/

------------------------------------
-- The Ledger
------------------------------------

namespace Nachos

open Ownership

/- What matters for the lives of threads. -/
structure Ledger where
  threadID : Nat → Int
  finished : Nat → Bool
  deletions : Nat → Nat
  numThreads : Nat
  threadToBeDestroyed : Option Nat
  threadIDs : ThreadIDs
  resumedSinceFinish : Bool

def Kernel.ledger
    (k : Kernel) :
    Ledger where
  threadID := fun t => (k.thread t).threadID
  finished := fun t => (k.thread t).finished
  deletions := fun t => (k.thread t).deletions
  numThreads := k.numThreads
  threadToBeDestroyed := k.threadToBeDestroyed
  threadIDs := k.threadIDs
  resumedSinceFinish := k.resumedSinceFinish

namespace Ledger

variable {t : Nat}

/- The threads that were constructed and not deleted. -/
def existing
    (l : Ledger) :
    List Nat :=
  (List.range l.numThreads).filter fun t =>
    l.deletions t = 0

/-
  A finished thread is about to be destroyed or was deleted
  once, and the numbers in use are those of the existing
  threads.
-/
structure Reclaimed
    (l : Ledger) : Prop where
  resumed_iff :
    l.resumedSinceFinish = true ↔
      l.threadToBeDestroyed = none
  finished :
    ∀ t, l.finished t = true →
      l.threadToBeDestroyed = some t ∧ l.deletions t = 0 ∨
      l.threadToBeDestroyed ≠ some t ∧ l.deletions t = 1
  binary : l.threadIDs.Binary
  tracks :
    Tracks l.threadIDs.IsTaken (l.existing.map l.threadID)

/- A new thread takes a number. -/
def construct
    (l : Ledger) :
    Ledger :=
  let (threadID, threadIDs) := allocatedThreadID l.threadIDs
  { l with
    threadID :=
      Function.update l.threadID l.numThreads threadID
    finished := Function.update l.finished l.numThreads false
    deletions := Function.update l.deletions l.numThreads 0
    numThreads := l.numThreads + 1
    threadIDs := threadIDs }

def finish
    (l : Ledger)
    (t : Nat) :
    Ledger :=
  { l with
    finished := Function.update l.finished t true
    threadToBeDestroyed := some t
    resumedSinceFinish := false }

/- A thread is deleted and gives its number back. -/
def delete
    (l : Ledger)
    (t : Nat)
    (threadIDs : ThreadIDs) :
    Ledger :=
  { l with
    deletions := Function.update l.deletions t
      (l.deletions t + 1)
    threadToBeDestroyed := none
    threadIDs := threadIDs
    resumedSinceFinish := true }

variable {l : Ledger}

/- The new thread comes last. -/
theorem existing_construct
    (l : Ledger) :
    l.construct.existing = l.existing ++ [l.numThreads] := by
  have hOld : (List.range l.numThreads).filter (fun t =>
      decide (Function.update l.deletions l.numThreads 0 t =
        0)) =
      (List.range l.numThreads).filter fun t =>
        decide (l.deletions t = 0) := by
    refine List.filter_congr ?_
    intro t ht
    rw [Function.update_of_ne
      (Nat.ne_of_lt (List.mem_range.mp ht))]
  simp only [existing, construct, List.range_succ,
    List.filter_append]
  refine congrArg₂ (· ++ ·) hOld ?_
  simp

theorem existing_lt
    (ht : t ∈ l.existing) :
    t < l.numThreads :=
  List.mem_range.mp (List.mem_filter.mp ht).1

theorem Reclaimed.construct
    (hInv : l.Reclaimed)
    (hRoom : l.existing.length < MaxThread) :
    l.construct.Reclaimed := by
  have hLength :
      (l.existing.map l.threadID).length < MaxThread := by
    rwa [List.length_map]
  rcases ThreadIDs.allocate_of_lt hInv.binary hInv.tracks
    hLength with ⟨i, hAllocate, hBinary, hTracks⟩
  constructor
  · exact hInv.resumed_iff
  · intro t hFinished
    by_cases hEq : t = l.numThreads
    · subst hEq
      simp [Ledger.construct] at hFinished
    · simp only [Ledger.construct,
        Function.update_of_ne hEq] at hFinished ⊢
      exact hInv.finished t hFinished
  · simpa only [Ledger.construct, hAllocate] using hBinary
  · have hMap : l.construct.existing.map
        l.construct.threadID =
        l.existing.map l.threadID ++ [(i.1 : Int)] := by
      rw [existing_construct, List.map_append]
      simp only [Ledger.construct, hAllocate, List.map_cons,
        List.map_nil, Function.update_self]
      refine congrArg (· ++ [(i.1 : Int)]) ?_
      refine List.map_congr_left ?_
      intro t ht
      exact Function.update_of_ne
        (Nat.ne_of_lt (existing_lt ht)) ..
    rw [hMap]
    simp only [Ledger.construct, hAllocate]
    exact hTracks.perm (List.perm_append_singleton _ _).symm

/- Nothing waits to be destroyed when a thread finishes. -/
theorem Reclaimed.finish
    (hInv : l.Reclaimed)
    (hResumed : l.resumedSinceFinish = true)
    (hKept : l.deletions t = 0) :
    (l.finish t).Reclaimed := by
  have hNone := hInv.resumed_iff.mp hResumed
  constructor
  · simp [Ledger.finish]
  · intro u hFinished
    by_cases hEq : u = t
    · subst hEq
      exact Or.inl ⟨rfl, hKept⟩
    · simp only [Ledger.finish,
        Function.update_of_ne hEq] at hFinished ⊢
      have hOld := hInv.finished u hFinished
      rw [hNone] at hOld
      have hDeleted := (hOld.resolve_left (by simp)).2
      exact Or.inr ⟨by simpa using Ne.symm hEq, hDeleted⟩
  · exact hInv.binary
  · exact hInv.tracks

/- The thread that is deleted was one of the existing ones. -/
theorem existing_delete
    (threadIDs : ThreadIDs)
    (hMem : t ∈ l.existing) :
    l.existing.Perm (t :: (l.delete t threadIDs).existing)
    := by
  have hNodup : l.existing.Nodup :=
    List.nodup_range.filter _
  have hRest : (l.delete t threadIDs).existing =
      l.existing.erase t := by
    rw [hNodup.erase_eq_filter, existing, existing,
      List.filter_filter]
    refine List.filter_congr ?_
    intro u _
    by_cases hEq : u = t
    · subst hEq
      simp [Ledger.delete]
    · simp [Ledger.delete, hEq]
  rw [hRest]
  exact List.perm_cons_erase hMem

theorem Reclaimed.delete
    (hInv : l.Reclaimed)
    {threadIDs : ThreadIDs}
    (hDoomed : l.threadToBeDestroyed = some t)
    (hFinished : l.finished t = true)
    (hLt : t < l.numThreads)
    (hRelease :
      releaseThreadID l.threadIDs (l.threadID t) =
        some threadIDs) :
    (l.delete t threadIDs).Reclaimed := by
  have hKept : l.deletions t = 0 :=
    ((hInv.finished t hFinished).resolve_right
      (fun hOther => hOther.1 hDoomed)).2
  have hMem : t ∈ l.existing :=
    List.mem_filter.mpr
      ⟨List.mem_range.mpr hLt, by simpa using hKept⟩
  have hTracks := hInv.tracks.perm
    ((existing_delete threadIDs hMem).map l.threadID)
  rw [List.map_cons] at hTracks
  rcases ThreadIDs.release_of_tracks hInv.binary hTracks with
    ⟨released, hSome, hBinary, hRest⟩
  cases hSome.symm.trans hRelease
  refine ⟨by simp [Ledger.delete], ?_, hBinary, hRest⟩
  intro u hu
  by_cases hEq : u = t
  · subst hEq
    simp [Ledger.delete, hKept]
  · have hOld := hInv.finished u hu
    rw [hDoomed] at hOld
    have hDeleted :=
      (hOld.resolve_left (by simp [Ne.symm hEq])).2
    simp [Ledger.delete, hEq, hDeleted]

end Ledger

end Nachos

------------------------------------
-- The Kernel Keeps the Ledger
------------------------------------

namespace Nachos

variable {H : Type}

namespace Kernel

variable {k k' : Kernel}

/- Reading a field after one thread was replaced. -/
theorem map_update_thread
    {β : Type}
    (f : Thread → β)
    (thread : Nat → Thread)
    (t : Nat)
    (x : Thread) :
    (fun u => f (Function.update thread t x u)) =
      Function.update (fun u => f (thread u)) t (f x) := by
  funext u
  by_cases hEq : u = t
  · subst hEq
    rw [Function.update_self, Function.update_self]
  · rw [Function.update_of_ne hEq, Function.update_of_ne hEq]

/- One thread changes, but not in what the ledger has. -/
theorem ledger_setThread
    (k : Kernel)
    {t : Nat}
    {x : Thread}
    (hThreadID : x.threadID = (k.thread t).threadID)
    (hFinished : x.finished = (k.thread t).finished)
    (hDeletions : x.deletions = (k.thread t).deletions) :
    (k.setThread t x).ledger = k.ledger := by
  simp only [ledger, setThread]
  rw [map_update_thread (·.threadID),
    map_update_thread (·.finished),
    map_update_thread (·.deletions), hThreadID, hFinished,
    hDeletions]
  simp only [Function.update_eq_self]

@[simp]
theorem ledger_setStatus
    (k : Kernel)
    (t : Nat)
    (status : ThreadStatus) :
    (k.setStatus t status).ledger = k.ledger :=
  k.ledger_setThread rfl rfl rfl

@[simp]
theorem ledger_setFrames
    (k : Kernel)
    (t : Nat)
    (frames : List Frame) :
    (k.setFrames t frames).ledger = k.ledger :=
  k.ledger_setThread rfl rfl rfl

@[simp]
theorem ledger_push
    (k : Kernel)
    (frames : List Frame) :
    (k.push frames).ledger = k.ledger :=
  k.ledger_setFrames _ _

@[simp]
theorem ledger_setSemaphore
    (k : Kernel)
    (sem : Nat)
    (x : Semaphore) :
    (k.setSemaphore sem x).ledger = k.ledger :=
  rfl

@[simp]
theorem ledger_readyToRun
    (k : Kernel)
    (t : Nat) :
    (k.readyToRun t).ledger = k.ledger :=
  k.ledger_setStatus t .ready

@[simp]
theorem ledger_run
    (k : Kernel)
    (next : Nat) :
    (k.run next).ledger = k.ledger :=
  ((k.push [.afterSwitch]).ledger_setStatus next
    .running).trans (k.ledger_push _)

@[simp]
theorem ledger_block
    (k : Kernel) :
    k.block.ledger = k.ledger :=
  k.ledger_setStatus _ .blocked

theorem ledger_fork
    (k : Kernel)
    (t : Nat) :
    (k.fork t).ledger = k.ledger := by
  simp [fork]

theorem ledger_yield
    (k : Kernel)
    (old : IntStatus) :
    (k.yield old).ledger = k.ledger := by
  unfold yield
  dsimp only
  split
  · exact k.ledger_push _
  · rw [ledger_run, ledger_readyToRun]
    exact k.ledger_push _

theorem ledger_wait
    (k : Kernel)
    (sem : Nat) :
    (k.wait sem).ledger = k.ledger := by
  simp [wait]

theorem ledger_take
    {sem : Nat}
    (hRun : k.take sem = some k') :
    k'.ledger = k.ledger := by
  rcases Option.bind_eq_some_iff.mp hRun with
    ⟨value, _, hEq⟩
  cases hEq
  rfl

theorem ledger_v
    {sem : Nat}
    (hRun : k.v sem = some k') :
    k'.ledger = k.ledger := by
  rcases Option.bind_eq_some_iff.mp hRun with
    ⟨value, _, hRest⟩
  split at hRest
  · cases hRest
    rfl
  · cases hRest
    simp

theorem ledger_newThread
    (k : Kernel) :
    k.newThread.ledger = k.ledger.construct := by
  simp only [newThread, ledger, setThread, Ledger.construct,
    map_update_thread, Thread.create]

theorem ledger_finish
    (k : Kernel) :
    k.finish.ledger = k.ledger.finish k.currentThread := by
  unfold finish
  rw [ledger_block]
  simp only [ledger, setThread, Ledger.finish]
  rw [map_update_thread (·.threadID),
    map_update_thread (·.finished),
    map_update_thread (·.deletions)]
  simp

/- The thread that was left to be destroyed is deleted. -/
theorem ledger_afterSwitch
    (hRun : k.afterSwitch = some k') :
    (k.threadToBeDestroyed = none ∧
      k'.ledger =
        { k.ledger with resumedSinceFinish := true }) ∨
    (∃ t threadIDs,
      k.threadToBeDestroyed = some t ∧
      releaseThreadID k.threadIDs (k.thread t).threadID =
        some threadIDs ∧
      k'.ledger = k.ledger.delete t threadIDs) := by
  unfold afterSwitch at hRun
  split at hRun
  · rename_i hNone
    cases hRun
    exact Or.inl ⟨hNone, rfl⟩
  · rename_i t hDoomed
    rcases Option.bind_eq_some_iff.mp hRun with
      ⟨u, hDelete, hEq⟩
    cases hEq
    unfold delete at hDelete
    split at hDelete
    · rcases Option.bind_eq_some_iff.mp hDelete with
        ⟨threadIDs, hRelease, hEq⟩
      cases hEq
      refine Or.inr ⟨t, threadIDs, hDoomed, hRelease, ?_⟩
      simp only [ledger, setThread, Ledger.delete]
      rw [map_update_thread (·.threadID),
        map_update_thread (·.finished),
        map_update_thread (·.deletions)]
      simp only [Function.update_eq_self]
    · cases hDelete

end Kernel

end Nachos

------------------------------------
-- Every Run
------------------------------------

namespace Nachos

variable {H : Type}

namespace Kernel

/-
  Nothing waits to be destroyed when `Finish` is called, and
  threads are constructed only while fewer than `MaxThread`
  exist.
-/
def Reclaims
    (k : Kernel) :
    Sim.KernelCall H → Prop
| .finish => k.resumedSinceFinish = true
| .newThread => k.ledger.existing.length < MaxThread
| _ => True

theorem Placed.afterSwitch_reclaimed
    {k k' : Kernel}
    {sleepers : Prop}
    {place : Nat → Place}
    (hPlaced : k.Placed sleepers place)
    (hInv : k.ledger.Reclaimed)
    (hRun : k.afterSwitch = some k') :
    k'.ledger.Reclaimed := by
  rcases ledger_afterSwitch hRun with
    ⟨hNone, hLedger⟩ | ⟨t, threadIDs, hDoomed, hRelease, hLedger⟩
  · rw [hLedger]
    exact { hInv with
      resumed_iff := ⟨fun _ => hNone, fun _ => rfl⟩ }
  · have hPlace := hPlaced.doomed t hDoomed
    rw [hLedger]
    exact hInv.delete hDoomed
      ((hPlaced.thread t).finished.mpr hPlace)
      (hPlaced.lt_of_ne_created (by simp [hPlace])) hRelease

/- Without threads there is nothing to reclaim. -/
theorem reclaimed_empty :
    empty.ledger.Reclaimed where
  resumed_iff := ⟨fun _ => rfl, fun _ => rfl⟩
  finished := fun _ hFinished => by cases hFinished
  binary := fun _ => Or.inl rfl
  tracks :=
    { nodup := List.nodup_nil
      marked_iff := fun threadID => by
        constructor
        · rintro ⟨i, _, hOne⟩
          cases hOne
        · intro hMem
          cases hMem }

theorem reclaimed_create :
    create.ledger.Reclaimed := by
  rw [create, ledger_push, ledger_setStatus, ledger_newThread]
  exact reclaimed_empty.construct (by decide)

/- Only these operations change the ledger. -/
theorem kept_ledger
    {mayCall : Kernel → Sim.KernelCall H → Prop}
    {P : Kernel → Prop}
    {R : Ledger → Prop}
    (hNew :
      ∀ k, P k → R k.ledger → mayCall k .newThread →
        R k.ledger.construct)
    (hFinish :
      ∀ k, P k → R k.ledger → mayCall k .finish →
        R (k.ledger.finish k.currentThread))
    (hAfter :
      ∀ k k', P k → R k.ledger → k.afterSwitch = some k' →
        R k'.ledger) :
    Kept mayCall P fun k => R k.ledger where
  halt := fun _ _ hInv => hInv
  push := fun k frames _ hInv => k.ledger_push frames ▸ hInv
  pop := fun k _ frames _ hInv _ _ =>
    k.ledger_setFrames _ frames ▸ hInv
  newThread := fun k hk hInv hRoom =>
    k.ledger_newThread ▸ hNew k hk hInv hRoom
  newSemaphore := fun _ _ _ hInv => hInv
  fork := fun k t _ hInv _ _ _ => k.ledger_fork t ▸ hInv
  dispatch := fun k next readyList _ hInv _ _ => by
    rw [ledger_run]
    exact hInv
  yield := fun k old _ hInv _ => k.ledger_yield old ▸ hInv
  sleep := fun k _ hInv _ _ => k.ledger_block ▸ hInv
  finish := fun k hk hInv _ hMay =>
    k.ledger_finish ▸ hFinish k hk hInv hMay
  afterSwitch := fun k k' hk hInv _ hRun =>
    hAfter k k' hk hInv hRun
  v := fun _ _ _ _ hInv _ hRun => ledger_v hRun ▸ hInv
  wait := fun k sem frames _ hInv _ _ _ _ => by
    rw [ledger_wait, ledger_setFrames]
    exact hInv
  take := fun k _ frames _ _ hInv _ _ _ _ hRun => by
    rw [ledger_take hRun, ledger_setFrames]
    exact hInv

theorem preserved_reclaimed
    {sleepers : Prop} :
    Preserved (Reclaims (H := H))
      (fun k => ∃ place, k.Placed sleepers place)
      fun k => k.ledger.Reclaimed where
  toKept := kept_ledger
    (fun _ _ hInv hRoom => hInv.construct hRoom)
    (fun _ ⟨_, hPlaced⟩ hInv hResumed =>
      hInv.finish hResumed hPlaced.current_kept)
    (fun _ _ ⟨_, hPlaced⟩ hInv hRun =>
      hPlaced.afterSwitch_reclaimed hInv hRun)
  create := reclaimed_create

variable
  {body : H → Interrupt H → Kernel → List (HandlerCall H Nat)}
variable {s : Sim H Kernel}

theorem reclaimed_of_reachable
    (hReach :
      (Sim.kernel (kernelDevice body) Reclaims).Reachable s) :
    s.rest.ledger.Reclaimed :=
  ((preserved_placed True
    fun _ _ => trivial).and preserved_reclaimed).of_reachable
      hReach |>.2

/-
  Threads 1 and 2 are dispatched for the first time one after
  the other.  When 2 finishes, 1 has not been deleted, and
  after main has deleted 2, nothing is left to delete 1.
-/
theorem finish_overwrites :
    ∃ s t u : Sim Unit Kernel,
      (Sim.kernel Sim.quietDevice
        fun _ _ => True).Reachable s ∧
      s.rest.Outside ∧
      s.rest.threadToBeDestroyed = some 1 ∧
      s.call .finish = some t ∧
      (t.rest.threadToBeDestroyed = some 2 ∧
        (t.rest.thread 1).finished = true ∧
        (t.rest.thread 1).deletions = 0 ∧
        (t.rest.thread 2).finished = true ∧
        (t.rest.thread 2).deletions = 0) ∧
      (Sim.kernel Sim.quietDevice
        fun _ _ => True).Reachable u ∧
      u.rest.Outside ∧
      u.rest.threadToBeDestroyed = none ∧
      (u.rest.thread 1).finished = true ∧
      (u.rest.thread 1).deletions = 0 ∧
      u.rest.threadIDs 1 = 1 := by
  have hRun : ((Sim.kernel Sim.quietDevice
      fun _ _ => True).attempt Sim.quiet
      [.advance, .advance, .call .newThread,
        .call .newThread, .call (.fork 1), .advance, .advance,
        .call (.fork 2), .advance, .advance,
        .call .yield, .advance, .advance, .advance,
        .call .finish, .advance, .advance, .advance]).any
      (fun s =>
        decide (s.rest.Outside ∧
          s.rest.threadToBeDestroyed = some 1) &&
        (s.call .finish).any fun t =>
          decide (t.rest.threadToBeDestroyed = some 2 ∧
            (t.rest.thread 1).finished = true ∧
            (t.rest.thread 1).deletions = 0 ∧
            (t.rest.thread 2).finished = true ∧
            (t.rest.thread 2).deletions = 0) &&
          ((Sim.kernel Sim.quietDevice
            fun _ _ => True).attempt t
            [.advance, .advance, .advance, .advance]).any
            fun u => decide (u.rest.Outside ∧
              u.rest.threadToBeDestroyed = none ∧
              (u.rest.thread 1).finished = true ∧
              (u.rest.thread 1).deletions = 0 ∧
              u.rest.threadIDs 1 = 1)) = true := by
    decide +kernel
  simp only [Option.any_eq_true, Bool.and_eq_true,
    decide_eq_true_eq] at hRun
  rcases hRun with ⟨s, hAttempt, ⟨hOutside, hDoomed⟩, t,
    hFinish, hLost, u, hRest, hEnd⟩
  have hReach := (Sim.reachable_quiet
    fun _ _ => True).of_attempt hAttempt
  have hNext := hReach.of_step
    (a := Sim.KernelAction.call .finish)
    ⟨hOutside, trivial, trivial⟩ hFinish
  exact ⟨s, t, u, hReach, hOutside, hDoomed, hFinish, hLost,
    hNext.of_attempt hRest, hEnd⟩

end Kernel

end Nachos
