import Nachos.Threads.Kernel

/-
  The invariant rule of the kernel.

  A property of threads and semaphores is preserved when the
  elementary operations keep it.  Then it holds in every
  reachable state, whatever the handlers do.

  Main declarations:
    * `Kernel.Kept`
    * `Kernel.Kept.and`
    * `Kernel.Kept.step`
    * `Kernel.Preserved`
    * `Kernel.Preserved.of_reachable`
-/

------------------------------------
-- Preserved Properties
------------------------------------

namespace Nachos

variable {H : Type}

namespace Kernel

/-
  The operations keep `Q` in states where `P` is known to
  hold.  The frame of the loop of `P` is taken off together
  with the test of the value.
-/
structure Kept
    (mayCall : Kernel → Sim.KernelCall H → Prop)
    (P Q : Kernel → Prop) : Prop where
  halt :
    ∀ k, P k → Q k → Q { k with halted := true }
  push :
    ∀ k frames, P k → Q k → Q (k.push frames)
  pop :
    ∀ k frame frames, P k → Q k →
      (k.thread k.currentThread).frames = frame :: frames →
      (∀ sem, frame ≠ .pLoop sem) →
      Q (k.setFrames k.currentThread frames)
  newThread :
    ∀ k, P k → Q k → mayCall k .newThread → Q k.newThread
  newSemaphore :
    ∀ k initialValue, P k → Q k →
      Q (k.newSemaphore initialValue)
  fork :
    ∀ k t, P k → Q k → k.Outside → t < k.numThreads →
      (k.thread t).status = .justCreated → Q (k.fork t)
  dispatch :
    ∀ k next readyList, P k → Q k → k.sleeping = true →
      k.readyList = next :: readyList →
      Q ({ k with readyList := readyList }.run next)
  yield :
    ∀ k old, P k → Q k → k.sleeping = false → Q (k.yield old)
  sleep :
    ∀ k, P k → Q k → k.Outside → mayCall k .sleep → Q k.block
  finish :
    ∀ k, P k → Q k → k.Outside → mayCall k .finish →
      Q k.finish
  afterSwitch :
    ∀ k k', P k → Q k → k.sleeping = false →
      k.afterSwitch = some k' → Q k'
  v :
    ∀ k sem k', P k → Q k → sem < k.numSemaphores →
      k.v sem = some k' → Q k'
  wait :
    ∀ k sem frames, P k → Q k → k.sleeping = false →
      (k.thread k.currentThread).frames =
        .pLoop sem :: frames →
      sem < k.numSemaphores →
      (k.semaphore sem).value = 0 →
      Q ((k.setFrames k.currentThread frames).wait sem)
  take :
    ∀ k sem frames k', P k → Q k → k.sleeping = false →
      (k.thread k.currentThread).frames =
        .pLoop sem :: frames →
      sem < k.numSemaphores →
      (k.semaphore sem).value ≠ 0 →
      (k.setFrames k.currentThread frames).take sem =
        some k' →
      Q k'

/- What is kept and holds at the start. -/
structure Preserved
    (mayCall : Kernel → Sim.KernelCall H → Prop)
    (P Q : Kernel → Prop) : Prop
    extends Kept mayCall P Q where
  create : Q create

namespace Kept

variable {mayCall : Kernel → Sim.KernelCall H → Prop}
variable {P Q : Kernel → Prop}

/- A property may use one that was proved before. -/
theorem and
    (hP : Kept mayCall (fun _ => True) P)
    (hQ : Kept mayCall P Q) :
    Kept mayCall (fun _ => True) fun k => P k ∧ Q k where
  halt := fun k _ hk =>
    ⟨hP.halt k trivial hk.1, hQ.halt k hk.1 hk.2⟩
  push := fun k frames _ hk =>
    ⟨hP.push k frames trivial hk.1,
      hQ.push k frames hk.1 hk.2⟩
  pop := fun k frame frames _ hk hFrames hNe =>
    ⟨hP.pop k frame frames trivial hk.1 hFrames hNe,
      hQ.pop k frame frames hk.1 hk.2 hFrames hNe⟩
  newThread := fun k _ hk hMay =>
    ⟨hP.newThread k trivial hk.1 hMay,
      hQ.newThread k hk.1 hk.2 hMay⟩
  newSemaphore := fun k value _ hk =>
    ⟨hP.newSemaphore k value trivial hk.1,
      hQ.newSemaphore k value hk.1 hk.2⟩
  fork := fun k t _ hk hOut hLt hStatus =>
    ⟨hP.fork k t trivial hk.1 hOut hLt hStatus,
      hQ.fork k t hk.1 hk.2 hOut hLt hStatus⟩
  dispatch := fun k next readyList _ hk hSleep hReady =>
    ⟨hP.dispatch k next readyList trivial hk.1 hSleep hReady,
      hQ.dispatch k next readyList hk.1 hk.2 hSleep hReady⟩
  yield := fun k old _ hk hSleep =>
    ⟨hP.yield k old trivial hk.1 hSleep,
      hQ.yield k old hk.1 hk.2 hSleep⟩
  sleep := fun k _ hk hOut hMay =>
    ⟨hP.sleep k trivial hk.1 hOut hMay,
      hQ.sleep k hk.1 hk.2 hOut hMay⟩
  finish := fun k _ hk hOut hMay =>
    ⟨hP.finish k trivial hk.1 hOut hMay,
      hQ.finish k hk.1 hk.2 hOut hMay⟩
  afterSwitch := fun k k' _ hk hSleep hRun =>
    ⟨hP.afterSwitch k k' trivial hk.1 hSleep hRun,
      hQ.afterSwitch k k' hk.1 hk.2 hSleep hRun⟩
  v := fun k sem k' _ hk hLt hRun =>
    ⟨hP.v k sem k' trivial hk.1 hLt hRun,
      hQ.v k sem k' hk.1 hk.2 hLt hRun⟩
  wait := fun k sem frames _ hk hSleep hFrames hLt hZero =>
    ⟨hP.wait k sem frames trivial hk.1 hSleep hFrames hLt
        hZero,
      hQ.wait k sem frames hk.1 hk.2 hSleep hFrames hLt
        hZero⟩
  take := fun k sem frames k' _ hk hSleep hFrames hLt hPos
      hRun =>
    ⟨hP.take k sem frames k' trivial hk.1 hSleep hFrames hLt
        hPos hRun,
      hQ.take k sem frames k' hk.1 hk.2 hSleep hFrames hLt
        hPos hRun⟩

end Kept

theorem Preserved.and
    {mayCall : Kernel → Sim.KernelCall H → Prop}
    {P Q : Kernel → Prop}
    (hP : Preserved mayCall (fun _ => True) P)
    (hQ : Preserved mayCall P Q) :
    Preserved mayCall (fun _ => True) fun k => P k ∧ Q k where
  toKept := hP.toKept.and hQ.toKept
  create := ⟨hP.create, hQ.create⟩

end Kernel

end Nachos

------------------------------------
-- Steps Keep What Is Kept
------------------------------------

namespace Nachos

variable {H : Type}
variable
  {body : H → Interrupt H → Kernel → List (HandlerCall H Nat)}

namespace Kernel

namespace Kept

variable {mayCall : Kernel → Sim.KernelCall H → Prop}
variable {Q : Kernel → Prop}
variable {s t : Sim H Kernel}

theorem stable
    (hQ : Kept mayCall (fun _ => True) Q) :
    Sim.Stable (kernelDevice body) fun s => Q s.rest := by
  refine Sim.Stable.of_rest (fun _ hk => hk) ?_
  intro k sem k' hk hRun
  simp only [kernelDevice] at hRun
  split at hRun
  · rename_i hLt
    exact hQ.v k sem k' trivial hk hLt hRun
  · cases hRun

theorem setLevel
    (hQ : Kept mayCall (fun _ => True) Q)
    {now : IntStatus}
    (hk : Q s.rest)
    (hRun : s.setLevel now = some t) :
    Q t.rest := by
  rcases Option.bind_eq_some_iff.mp hRun with
    ⟨⟨tick, i⟩, _, hRest⟩
  dsimp only at hRest
  split at hRest
  · cases hRest
    exact hQ.push _ _ trivial hk
  · cases hRest
    exact hk

theorem sleepLoop
    (hQ : Kept mayCall (fun _ => True) Q)
    (hk : Q s.rest)
    (hSleep : s.rest.sleeping = true)
    (hRun : s.sleepLoop (kernelDevice body) = some t) :
    Q t.rest := by
  unfold Sim.sleepLoop at hRun
  split at hRun
  · rename_i next readyList hReady
    cases hRun
    exact hQ.dispatch _ next readyList trivial hk hSleep
      hReady
  · rcases Option.bind_eq_some_iff.mp hRun with
      ⟨⟨fired, u⟩, hIdle, hRest⟩
    have hu : Q u.rest := hQ.stable.steady.idle hk hIdle
    dsimp only at hRest
    split at hRest
    · cases hRest
      exact hu
    · cases hRest
      exact hQ.halt _ trivial hu

/- A frame is taken off and carried out. -/
theorem resume
    (hQ : Kept mayCall (fun _ => True) Q)
    {frame : Frame}
    {frames : List Frame}
    (hk : Q s.rest)
    (hSleep : s.rest.sleeping = false)
    (hFrames :
      (s.rest.thread s.rest.currentThread).frames =
        frame :: frames)
    (hRun :
      (s.mapRest fun k =>
        k.setFrames k.currentThread frames).resume
          (kernelDevice body) frame = some t) :
    Q t.rest := by
  have hPop := hQ.pop _ frame frames trivial hk hFrames
  cases frame with
  | setLevel now =>
      exact hQ.setLevel (hPop (by simp)) hRun
  | oneTick =>
      rcases Option.bind_eq_some_iff.mp hRun with
        ⟨⟨yield, u⟩, hTick, hRest⟩
      have hu : Q u.rest :=
        hQ.stable.steady.oneTick (hPop (by simp)) hTick
      cases yield with
      | some old =>
          cases hRest
          exact hQ.push _ _ trivial hu
      | none =>
          cases hRest
          exact hu
  | yield =>
      cases hRun
      exact hQ.yield _ _ trivial (hPop (by simp)) hSleep
  | restoreStatus old =>
      cases hRun
      exact hPop (by simp)
  | afterSwitch =>
      rcases Option.bind_eq_some_iff.mp hRun with
        ⟨k', hAfter, hEq⟩
      cases hEq
      exact hQ.afterSwitch _ k' trivial (hPop (by simp))
        hSleep hAfter
  | pLoop sem =>
      simp only [Sim.resume, Sim.pLoop, Sim.enterSleep] at hRun
      split at hRun
      · rename_i hLt
        split at hRun
        · rename_i hZero
          split at hRun
          · cases hRun
            exact hQ.wait _ sem frames trivial hk hSleep
              hFrames hLt hZero
          · cases hRun
        · rename_i hPos
          rcases Option.bind_eq_some_iff.mp hRun with
            ⟨k', hTake, hEq⟩
          cases hEq
          exact hQ.take _ sem frames k' trivial hk hSleep
            hFrames hLt hPos hTake
      · cases hRun

theorem advance
    (hQ : Kept mayCall (fun _ => True) Q)
    (hk : Q s.rest)
    (hRun : s.advance (kernelDevice body) = some t) :
    Q t.rest := by
  unfold Sim.advance at hRun
  split at hRun
  · cases hRun
  · split at hRun
    · rename_i hSleep
      exact hQ.sleepLoop hk hSleep hRun
    · rename_i hSleep
      split at hRun
      · cases hRun
      · rename_i frame frames hFrames
        exact hQ.resume hk (Bool.eq_false_of_not_eq_true hSleep)
          hFrames hRun

theorem call
    (hQ : Kept mayCall (fun _ => True) Q)
    {c : Sim.KernelCall H}
    (hk : Q s.rest)
    (hOut : s.rest.Outside)
    (hRange : c.InRange s.rest)
    (hMay : mayCall s.rest c)
    (hRun : s.call c = some t) :
    Q t.rest := by
  cases c with
  | newThread =>
      cases hRun
      exact hQ.newThread _ trivial hk hMay
  | newSemaphore initialValue =>
      cases hRun
      exact hQ.newSemaphore _ _ trivial hk
  | fork u =>
      cases hRun
      exact hQ.push _ _ trivial
        (hQ.fork _ u trivial hk hOut hRange.1 hRange.2)
  | yield =>
      cases hRun
      exact hQ.push _ _ trivial hk
  | sleep =>
      simp only [Sim.call, Sim.enterSleep] at hRun
      split at hRun
      · cases hRun
        exact hQ.sleep _ trivial hk hOut hMay
      · cases hRun
  | finish =>
      simp only [Sim.call, Sim.enterSleep] at hRun
      split at hRun
      · cases hRun
        exact hQ.finish _ trivial hk hOut hMay
      · cases hRun
  | p sem =>
      cases hRun
      exact hQ.push _ _ trivial hk
  | v sem =>
      rcases Option.bind_eq_some_iff.mp hRun with
        ⟨k', hV, hEq⟩
      cases hEq
      exact hQ.push _ _ trivial
        (hQ.v _ sem k' trivial hk hRange hV)
  | setLevel now => exact hQ.setLevel hk hRun
  | oneTick =>
      cases hRun
      exact hQ.push _ _ trivial hk
  | setStatus status =>
      cases hRun
      exact hk
  | schedule handler fromNow type =>
      rcases Option.bind_eq_some_iff.mp hRun with
        ⟨i, _, hEq⟩
      cases hEq
      exact hk

theorem step
    (hQ : Kept mayCall (fun _ => True) Q)
    {action : Sim.KernelAction H}
    (hk : Q s.rest)
    (hAllowed : Sim.KernelAllowed mayCall s action)
    (hStep :
      Sim.kernelStep (kernelDevice body) s action = some t) :
    Q t.rest := by
  cases action with
  | call c =>
      exact hQ.call hk hAllowed.1 hAllowed.2.1 hAllowed.2.2
        hStep
  | advance => exact hQ.advance hk hStep

end Kept

/- What is preserved holds in every reachable state. -/
theorem Preserved.of_reachable
    {mayCall : Kernel → Sim.KernelCall H → Prop}
    {Q : Kernel → Prop}
    {s : Sim H Kernel}
    (hQ : Preserved mayCall (fun _ => True) Q)
    (hReach :
      (Sim.kernel (kernelDevice body) mayCall).Reachable s) :
    Q s.rest := by
  refine hReach.invariant (P := fun s => Q s.rest) ?_ ?_
  · rintro s ⟨pending, rfl⟩
    exact hQ.create
  · intro s action t hk hAllowed hStep
    exact hQ.step hk hAllowed hStep

end Kernel

end Nachos
