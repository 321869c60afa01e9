import Nachos.Threads.Counting
import Nachos.Threads.Fairness
import Nachos.Threads.Levels
import Nachos.Threads.Reclaim

/-
  Which schedules reclaim all finished threads.

  A thread that was dispatched before comes back from `SWITCH`
  when it is dispatched again, and deletes the thread that is
  to be destroyed.  So it is enough that between two calls of
  `Finish` some thread is dispatched that has run before.

  Main declarations:
    * `redispatched`
    * `Traced.system`
    * `Kernel.kept_paused`
    * `Traced.traced_sound`
    * `Traced.reclaimed_when_redispatched`
-/

------------------------------------
-- Schedules
------------------------------------

namespace Nachos

variable {H : Type}

/- What a schedule consists of. -/
inductive ScheduleEvent where
  | dispatched (t : Nat)
  | finished (t : Nat)
  deriving DecidableEq

/-
  Since `Finish` was last called, a thread was dispatched that
  had been dispatched before; or it was never called.  The
  last event comes first.
-/
def redispatched :
    List ScheduleEvent → Bool
| [] => true
| .finished _ :: _ => false
| .dispatched t :: before =>
    before.contains (.dispatched t) || redispatched before

/- The kernel with the schedule so far. -/
structure Traced (H : Type) where
  sim : Sim H Kernel
  trace : List ScheduleEvent

namespace Traced

def eventsOf
    (k : Kernel) :
    Sim.KernelAction H → List ScheduleEvent
| .call .finish => [.finished k.currentThread]
| .call _ => []
| .advance => k.dispatches.map .dispatched

/-
  `Finish` is called after a thread was dispatched again, and
  threads are constructed only while fewer than `MaxThread`
  exist.
-/
def MayCall
    (trace : List ScheduleEvent)
    (k : Kernel) :
    Sim.KernelCall H → Prop
| .finish => redispatched trace = true
| .newThread => k.ledger.existing.length < MaxThread
| _ => True

instance
    (trace : List ScheduleEvent)
    (k : Kernel)
    (c : Sim.KernelCall H) :
    Decidable (MayCall trace k c) :=
  match c with
  | .finish => instDecidableEqBool _ _
  | .newThread => Nat.decLt _ _
  | .newSemaphore _ | .fork _ | .yield | .sleep | .p _ | .v _
  | .setLevel _ | .oneTick | .setStatus _
  | .schedule _ _ _ => .isTrue trivial

/- The main thread counts as dispatched at the start. -/
def system
    (dev : Device H Kernel Nat) :
    Transition.System (Traced H) (Sim.KernelAction H) where
  init := fun s =>
    (Sim.kernel dev fun _ _ => True).init s.sim ∧
      s.trace = [.dispatched 0]
  allowed := fun s => Sim.KernelAllowed (MayCall s.trace) s.sim
  step := fun s action =>
    (Sim.kernelStep dev s.sim action).map fun t =>
      ⟨t, eventsOf s.sim.rest action ++ s.trace⟩

instance
    {dev : Device H Kernel Nat}
    (s : Traced H)
    (a : Sim.KernelAction H) :
    Decidable ((system dev).allowed s a) :=
  inferInstanceAs
    (Decidable (Sim.KernelAllowed (MayCall s.trace) s.sim a))

end Traced

end Nachos

------------------------------------
-- Threads That Have Run
------------------------------------

namespace Nachos

variable {H : Type}

namespace Kernel

variable {u : Nat}
variable {k k' : Kernel}

/- The thread has the processor, or it is inside of `SWITCH`. -/
def Paused
    (u : Nat)
    (k : Kernel) : Prop :=
  u = k.currentThread ∨
    (k.framesOf u).head? = some .afterSwitch

namespace Paused

/- Only the frames of the current thread change. -/
theorem mono
    (hPaused : Paused u k)
    (hCurrent : k'.currentThread = k.currentThread)
    (hFrames :
      u ≠ k.currentThread → k.framesOf u ≠ [] →
        k'.framesOf u = k.framesOf u) :
    Paused u k' := by
  by_cases hEq : u = k.currentThread
  · exact Or.inl (hEq.trans hCurrent.symm)
  · have hHead := hPaused.resolve_left hEq
    refine Or.inr ?_
    rw [hFrames hEq, hHead]
    intro hNil
    rw [hNil] at hHead
    cases hHead

theorem of_holds
    (hPaused : Paused u k)
    (hHolds : k.Holds k') :
    Paused u k' :=
  hPaused.mono hHolds.currentThread
    fun _ _ => congrFun hHolds.framesOf u

theorem setFrames
    (hPaused : Paused u k)
    (frames : List Frame) :
    Paused u (k.setFrames k.currentThread frames) := by
  refine hPaused.mono rfl fun hNe _ => ?_
  rw [framesOf_setFrames, Function.update_of_ne hNe]

theorem block
    (hPaused : Paused u k) :
    Paused u k.block :=
  hPaused.mono rfl fun _ _ =>
    congrFun (k.framesOf_setStatus _ .blocked) u

/- Whoever loses the processor is inside of `SWITCH`. -/
theorem head_run
    (hPaused : Paused u k)
    (next : Nat) :
    ((k.run next).framesOf u).head? = some .afterSwitch := by
  rw [framesOf_run]
  by_cases hEq : u = k.currentThread
  · rw [hEq, Function.update_self]
    rfl
  · rw [Function.update_of_ne hEq]
    exact hPaused.resolve_left hEq

/- The current thread gives up the processor by `Yield`. -/
theorem head_yield
    (hPaused : Paused u k)
    (old : IntStatus)
    {next : Nat}
    {readyList : List Nat}
    (hReady : k.readyList = next :: readyList) :
    (k.yield old).currentThread = next ∧
      (k.yield old).sleeping = false ∧
      ((k.yield old).framesOf u).head? =
        some .afterSwitch := by
  have hPush : Paused u (k.push [.setLevel old]) :=
    hPaused.setFrames _
  have hJoin := Paused.of_holds
    (k := { k.push [.setLevel old] with
      readyList := readyList }) hPush
    (Kernel.holds_readyToRun _ k.currentThread)
  have hYield : k.yield old =
      (({ k.push [.setLevel old] with
        readyList := readyList } : Kernel).readyToRun
          k.currentThread).run next := by
    unfold yield
    dsimp only
    split
    · rename_i hNone
      cases hReady.symm.trans hNone
    · rename_i hSome
      cases hReady.symm.trans hSome
      rfl
  rw [hYield]
  exact ⟨rfl, rfl, hJoin.head_run next⟩

theorem yield
    (hPaused : Paused u k)
    (old : IntStatus) :
    Paused u (k.yield old) := by
  cases hReady : k.readyList with
  | nil =>
      have hYield : k.yield old = k.push [.setLevel old] := by
        unfold Kernel.yield
        dsimp only
        split
        · rfl
        · rename_i hSome
          cases hReady.symm.trans hSome
      rw [hYield]
      exact hPaused.setFrames _
  | cons next readyList =>
      exact Or.inr (hPaused.head_yield old hReady).2.2

end Paused

/- A thread that has run stays one that has. -/
theorem kept_paused
    {mayCall : Kernel → Sim.KernelCall H → Prop}
    (u : Nat) :
    Kept mayCall
      (fun k => (∃ place, k.Placed True place) ∧ k.Counted)
      (Paused u) where
  halt := fun _ _ hPaused => hPaused
  push := fun _ _ _ hPaused => hPaused.setFrames _
  pop := fun _ _ frames _ hPaused _ _ =>
    hPaused.setFrames frames
  newThread := fun k ⟨⟨_, hPlaced⟩, hCounted⟩ hPaused _ => by
    refine hPaused.mono rfl fun _ hRun => ?_
    have hNe : u ≠ k.numThreads := by
      rintro rfl
      exact hRun (hCounted.created _
        ((hPlaced.status_iff _).2.2.mpr
          (hPlaced.fresh _ (Nat.le_refl _))))
    simp only [framesOf, newThread, setThread,
      Function.update_of_ne hNe]
  newSemaphore := fun _ _ _ hPaused => hPaused
  fork := fun k t ⟨_, hCounted⟩ hPaused _ _ hStatus => by
    refine hPaused.mono rfl fun _ hRun => ?_
    have hNe : u ≠ t := by
      rintro rfl
      exact hRun (hCounted.created _ hStatus)
    rw [fork, (holds_readyToRun _ t).framesOf,
      framesOf_setFrames, Function.update_of_ne hNe]
  dispatch := fun k next _ _ hPaused _ _ =>
    Or.inr (Paused.head_run (k := { k with readyList := _ })
      hPaused next)
  yield := fun _ old _ hPaused _ => hPaused.yield old
  sleep := fun _ _ hPaused _ _ => hPaused.block
  finish := fun k _ hPaused _ _ =>
    Paused.block (hPaused.mono rfl fun hNe _ => by
      simp only [framesOf, setThread,
        Function.update_of_ne hNe])
  afterSwitch := fun _ _ _ hPaused _ hRun =>
    hPaused.of_holds (holds_afterSwitch hRun)
  v := fun _ _ _ _ hPaused _ hRun =>
    hPaused.of_holds (holds_v hRun)
  wait := fun _ _ frames _ hPaused _ _ _ _ =>
    ((hPaused.setFrames frames).setFrames _).block
  take := fun _ _ frames _ _ hPaused _ _ _ _ hRun =>
    (hPaused.setFrames frames).of_holds (holds_take hRun)

/- Only `Finish` leaves a thread to be destroyed. -/
theorem kept_resumed :
    Kept (fun _ (c : Sim.KernelCall H) => c ≠ .finish)
      (fun _ => True)
      fun k => k.ledger.resumedSinceFinish = true :=
  kept_ledger (R := fun l => l.resumedSinceFinish = true)
    (fun _ _ hResumed _ => hResumed)
    (fun _ _ _ hMay => absurd rfl hMay)
    (fun _ _ _ _ hRun => by
      rcases ledger_afterSwitch hRun with
        ⟨_, hLedger⟩ | ⟨_, _, _, _, hLedger⟩
      · rw [hLedger]
      · rw [hLedger]
        rfl)

/- Nothing is left to be destroyed, or it is deleted next. -/
def Resumes
    (k : Kernel) : Prop :=
  k.ledger.resumedSinceFinish = true ∨
    k.sleeping = false ∧
      (k.framesOf k.currentThread).head? = some .afterSwitch

theorem Resumes.of_outside
    (hResumes : k.Resumes)
    (hOut : k.Outside) :
    k.resumedSinceFinish = true := by
  rcases hResumes with hResumed | ⟨_, hHead⟩
  · exact hResumed
  · rw [framesOf, hOut.2] at hHead
    cases hHead

end Kernel

end Nachos

------------------------------------
-- Every Schedule
------------------------------------

namespace Nachos

variable {H : Type}
variable
  {body : H → Interrupt H → Kernel → List (HandlerCall H Nat)}

namespace Sim

open Kernel (Paused Resumes)

variable {s t : Sim H Kernel}

/- Coming back from `SWITCH` leaves nothing to be destroyed. -/
theorem resumed_of_advance
    (hResumes : s.rest.Resumes)
    (hRun : s.advance (kernelDevice body) = some t) :
    t.rest.ledger.resumedSinceFinish = true := by
  rcases hResumes with hResumed | ⟨hSleep, hHead⟩
  · exact Kernel.kept_resumed.advance hResumed hRun
  · rcases List.head?_eq_some_iff.mp hHead with
      ⟨frames, hFrames⟩
    unfold Kernel.framesOf at hFrames
    simp only [advance, hSleep, hFrames] at hRun
    split at hRun
    · cases hRun
    · rcases Option.bind_eq_some_iff.mp hRun with
        ⟨k', hAfter, hEq⟩
      cases hEq
      rcases Kernel.ledger_afterSwitch hAfter with
        ⟨_, hLedger⟩ | ⟨_, _, _, _, hLedger⟩
      · rw [hLedger]
      · rw [hLedger]
        rfl

/- A thread that has run is dispatched inside of `SWITCH`. -/
theorem resumes_of_dispatch
    {n : Nat}
    (hPaused : Paused n s.rest)
    (hn : n ∈ s.rest.dispatches)
    (hRun : s.advance (kernelDevice body) = some t) :
    t.rest.Resumes := by
  unfold advance at hRun
  split at hRun
  · cases hRun
  split at hRun
  · rename_i hSleep
    rw [Kernel.dispatches, if_pos hSleep] at hn
    unfold sleepLoop at hRun
    cases hReady : s.rest.readyList with
    | nil =>
        rw [hReady] at hn
        cases hn
    | cons next readyList =>
        rw [hReady] at hn hRun
        cases List.mem_singleton.mp hn
        cases hRun
        exact Or.inr ⟨rfl, Paused.head_run
          (k := { s.rest with readyList := readyList })
          hPaused n⟩
  rename_i hSleep
  split at hRun
  · cases hRun
  · rename_i frame frames hFrames
    rw [dispatches_of_frames hSleep hFrames] at hn
    cases frame with
    | yield =>
        cases hReady : s.rest.readyList with
        | nil =>
            rw [Frame.dispatches, hReady] at hn
            cases hn
        | cons next readyList =>
            rw [Frame.dispatches, hReady] at hn
            cases List.mem_singleton.mp hn
            cases hRun
            rcases (hPaused.setFrames frames).head_yield _
                hReady with ⟨hCurrent, hAwake, hHead⟩
            refine Or.inr ⟨hAwake, ?_⟩
            rw [← hCurrent] at hHead
            exact hHead
    | setLevel _ => cases hn
    | oneTick => cases hn
    | restoreStatus _ => cases hn
    | afterSwitch => cases hn
    | pLoop _ => cases hn

end Sim

namespace Traced

open Kernel (Paused Resumes Reclaims)

variable {s t : Traced H}
variable {sim : Sim H Kernel}

/- What holds along a schedule. -/
structure Sound
    (body : H → Interrupt H → Kernel → List (HandlerCall H Nat))
    (s : Traced H) : Prop where
  reachable :
    (Sim.kernel (kernelDevice body) Reclaims).Reachable s.sim
  paused :
    ∀ u, .dispatched u ∈ s.trace → Paused u s.sim.rest
  resumes : redispatched s.trace = true → s.sim.rest.Resumes

/- What the schedule allows, the ledger allows. -/
theorem Sound.allowed
    (hSound : s.Sound body)
    {action : Sim.KernelAction H}
    (hAllowed : (system (kernelDevice body)).allowed s action) :
    Sim.KernelAllowed Reclaims s.sim action := by
  cases action with
  | advance => trivial
  | call c =>
      refine ⟨hAllowed.1, hAllowed.2.1, ?_⟩
      cases c with
      | finish =>
          exact (hSound.resumes hAllowed.2.2).of_outside
            hAllowed.1
      | newThread => exact hAllowed.2.2
      | newSemaphore _ | fork _ | yield | sleep | p _ | v _
      | setLevel _ | oneTick | setStatus _
      | schedule _ _ _ => trivial

/- Threads that have run, the one dispatched last included. -/
theorem Sound.paused_step
    (hSound : s.Sound body)
    {action : Sim.KernelAction H}
    (hAllowed : Sim.KernelAllowed Reclaims s.sim action)
    (hStep :
      Sim.kernelStep (kernelDevice body) s.sim action =
        some sim)
    {u : Nat}
    (hu :
      .dispatched u ∈
        eventsOf s.sim.rest action ++ s.trace) :
    Paused u sim.rest := by
  rcases List.mem_append.mp hu with hNew | hOld
  · cases action with
    | advance =>
        rcases List.mem_map.mp hNew with ⟨n, hn, hEq⟩
        cases hEq
        rcases (Sim.turn_advance hStep).current with
          ⟨hNone, _⟩ | hGone
        · rw [hNone] at hn
          cases hn
        · rw [hGone] at hn
          exact Or.inl (List.mem_singleton.mp hn)
    | call c =>
        cases c <;> simp [eventsOf] at hNew
  · have hSleepers : ∀ k : Kernel,
        Reclaims (H := H) k .sleep → True :=
      fun _ _ => trivial
    have hBase := (Kernel.preserved_placed True hSleepers).and
      Kernel.preserved_counted
    have hKept := hBase.toKept.and (Kernel.kept_paused u)
    exact (hKept.step
      ⟨hBase.of_reachable hSound.reachable,
        hSound.paused u hOld⟩ hAllowed hStep).2

theorem Sound.resumes_call
    (hSound : s.Sound body)
    {c : Sim.KernelCall H}
    (hOut : s.sim.rest.Outside)
    (hRange : c.InRange s.sim.rest)
    (hStep : s.sim.call c = some sim)
    (hTrace :
      redispatched (eventsOf s.sim.rest (.call c) ++ s.trace) =
        true) :
    sim.rest.Resumes := by
  by_cases hFinish : c = .finish
  · subst hFinish
    cases hTrace
  · have hOld : redispatched s.trace = true := by
      cases c with
      | finish => exact absurd rfl hFinish
      | newThread | newSemaphore _ | fork _ | yield | sleep
      | p _ | v _ | setLevel _ | oneTick | setStatus _
      | schedule _ _ _ => exact hTrace
    exact Or.inl (Kernel.kept_resumed.call
      ((hSound.resumes hOld).of_outside hOut) hOut hRange
      hFinish hStep)

theorem Sound.resumes_advance
    (hSound : s.Sound body)
    (hStep :
      s.sim.advance (kernelDevice body) = some sim)
    (hTrace :
      redispatched
        (s.sim.rest.dispatches.map .dispatched ++ s.trace) =
        true) :
    sim.rest.Resumes := by
  have hAgain : redispatched s.trace = true →
      sim.rest.Resumes := fun hOld =>
    Or.inl (Sim.resumed_of_advance (hSound.resumes hOld) hStep)
  rcases (Sim.turn_advance hStep).current with
    ⟨hNone, _⟩ | hGone
  · rw [hNone] at hTrace
    exact hAgain hTrace
  · rw [hGone] at hTrace
    rcases Bool.or_eq_true_iff.mp hTrace with hBefore | hOld
    · exact Sim.resumes_of_dispatch
        (hSound.paused _ (List.contains_iff_mem.mp hBefore))
        (by rw [hGone]; exact List.mem_singleton_self _) hStep
    · exact hAgain hOld

theorem traced_sound
    (hReach : (system (kernelDevice body)).Reachable s) :
    s.Sound body := by
  refine hReach.invariant ?_ ?_
  · rintro ⟨sim, trace⟩ ⟨hInit, rfl⟩
    refine ⟨.of_init hInit, ?_, fun _ => ?_⟩
    · intro u hu
      cases List.mem_singleton.mp hu
      rcases hInit with ⟨pending, rfl⟩
      exact Or.inl rfl
    · rcases hInit with ⟨pending, rfl⟩
      exact Or.inl rfl
  · intro s action t hSound hAllowed hStep
    rcases Option.map_eq_some_iff.mp hStep with
      ⟨sim, hRun, rfl⟩
    have hMay := hSound.allowed hAllowed
    refine ⟨hSound.reachable.of_step hMay hRun,
      fun u hu => hSound.paused_step hMay hRun hu, ?_⟩
    intro hTrace
    cases action with
    | call c =>
        exact hSound.resumes_call hAllowed.1 hAllowed.2.1 hRun
          hTrace
    | advance => exact hSound.resumes_advance hRun hTrace

/-
  If between two calls of `Finish` a thread is dispatched that
  has run before, no call of `Finish` overwrites a thread, and
  every finished thread but the last is deleted once.
-/
theorem reclaimed_when_redispatched
    (hReach : (system (kernelDevice body)).Reachable s) :
    (s.sim.rest.Outside → redispatched s.trace = true →
      s.sim.rest.threadToBeDestroyed = none) ∧
    (∀ t u,
      (s.sim.rest.thread t).finished = true →
      (s.sim.rest.thread t).deletions = 0 →
      (s.sim.rest.thread u).finished = true →
      (s.sim.rest.thread u).deletions = 0 → t = u) ∧
    (∀ t, (s.sim.rest.thread t).finished = true →
      s.sim.rest.threadToBeDestroyed ≠ some t →
      (s.sim.rest.thread t).deletions = 1) ∧
    (List.finRange MaxThread).countP
        (fun i => s.sim.rest.threadIDs i = 1) =
      s.sim.rest.ledger.existing.length := by
  have hSound := traced_sound hReach
  have hInv := Kernel.reclaimed_of_reachable hSound.reachable
  have hDoomed : ∀ t,
      (s.sim.rest.thread t).finished = true →
      (s.sim.rest.thread t).deletions = 0 →
      s.sim.rest.threadToBeDestroyed = some t := by
    intro t hFinished hKept
    rcases hInv.finished t hFinished with hNext | hGone
    · exact hNext.1
    · exact absurd (hKept.symm.trans hGone.2) (by decide)
  refine ⟨?_, ?_, ?_, ?_⟩
  · intro hOut hTrace
    exact hInv.resumed_iff.mp
      ((hSound.resumes hTrace).of_outside hOut)
  · intro t u ht hKeptT hu hKeptU
    exact Option.some.inj ((hDoomed t ht hKeptT).symm.trans
      (hDoomed u hu hKeptU))
  · intro t hFinished hOther
    exact ((hInv.finished t hFinished).resolve_left
      (fun hNext => hOther hNext.1)).2
  · exact (ThreadIDs.count_eq_length hInv.tracks).trans
      (List.length_map _)

/-
  Threads 1 and 2 finish one after the other, and main is
  dispatched in between.
-/
theorem reclaimed_two_threads :
    ∃ s : Traced Unit,
      (s.sim.rest.thread 1).finished = true ∧
      (s.sim.rest.thread 2).finished = true ∧
      s.sim.rest.threadToBeDestroyed = none ∧
      (s.sim.rest.thread 1).deletions = 1 ∧
      (s.sim.rest.thread 2).deletions = 1 := by
  have hRun : ((system Sim.quietDevice).attempt
      ⟨Sim.quiet, [.dispatched 0]⟩
      [.advance, .advance, .call .newThread, .call (.fork 1),
        .advance, .advance, .call .yield, .advance, .advance,
        .advance, .call .finish, .advance, .advance, .advance,
        .advance, .call .newThread, .call (.fork 2),
        .advance, .advance, .call .yield, .advance, .advance,
        .advance, .call .finish, .advance, .advance]).any
        (fun s =>
          (s.sim.rest.thread 1).finished = true ∧
          (s.sim.rest.thread 2).finished = true ∧
          s.sim.rest.threadToBeDestroyed = none) = true := by
    decide +kernel
  rcases (Option.any_eq_true _ _).mp hRun with
    ⟨s, hAttempt, hState⟩
  rw [decide_eq_true_eq] at hState
  rcases hState with ⟨hFirst, hSecond, hNone⟩
  have hInit : (system Sim.quietDevice).Reachable
      ⟨Sim.quiet, [.dispatched 0]⟩ :=
    .of_init ⟨⟨[], rfl⟩, rfl⟩
  rcases reclaimed_when_redispatched
      (hInit.of_attempt hAttempt) with ⟨_, _, hDeleted, _⟩
  exact ⟨s, hFirst, hSecond, hNone,
    hDeleted 1 hFirst (by simp [hNone]),
    hDeleted 2 hSecond (by simp [hNone])⟩

end Traced

end Nachos
