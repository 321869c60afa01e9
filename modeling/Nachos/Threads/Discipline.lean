import Nachos.Threads.Levels

/-
  The discipline of interrupt levels.

  In every interleaving threads switch, sleep and run handlers
  with interrupts off, and a primitive returns with the level
  that it was called with.

  Main declarations:
    * `Sim.levels`
    * `Sim.Switches`
    * `Sim.orderly_of_reachable`
    * `Sim.level_of_returned`
    * `Sim.disciplined_of_reachable`
-/

------------------------------------
-- The Discipline
------------------------------------

namespace Nachos

variable {H : Type}

namespace Sim

/-
  The kernel with threads that leave sleeping to the
  primitives, and user instructions with interrupts on.
-/
def levels
    (body :
      H → Interrupt H → Kernel → List (HandlerCall H Nat)) :
    Transition.System (Sim H Kernel) (KernelAction H) where
  init := (kernel (kernelDevice body) Kernel.NoSleep).init
  allowed := fun s a =>
    KernelAllowed Kernel.NoSleep s a ∧ s.MayAct a
  step := kernelStep (kernelDevice body)

instance
    (s : Sim H Kernel)
    (a : KernelAction H) :
    Decidable (s.MayAct a) :=
  match a with
  | .call .oneTick =>
      inferInstanceAs (Decidable (s.interrupt.level = .on))
  | .advance | .call .newThread | .call (.newSemaphore _)
  | .call (.fork _) | .call .yield | .call .sleep
  | .call .finish | .call (.p _) | .call (.v _)
  | .call (.setLevel _) | .call (.setStatus _)
  | .call (.schedule _ _ _) => isTrue trivial

instance
    {body :
      H → Interrupt H → Kernel → List (HandlerCall H Nat)}
    (s : Sim H Kernel)
    (a : KernelAction H) :
    Decidable ((levels body).allowed s a) :=
  inferInstanceAs
    (Decidable (KernelAllowed Kernel.NoSleep s a ∧ s.MayAct a))

/- The next step of the current thread calls `SWITCH`. -/
def Switches
    (s : Sim H Kernel) :
    KernelAction H → Prop
| .call _ => False
| .advance =>
    s.rest.halted = false ∧ s.rest.readyList ≠ [] ∧
      (s.rest.sleeping = true ∨
        (s.rest.framesOf s.rest.currentThread).head? =
          some .yield)

/- The step calls `Sleep`. -/
def EntersSleep
    (s : Sim H Kernel) :
    KernelAction H → Prop
| .call .finish => True
| .call _ => False
| .advance =>
    s.rest.halted = false ∧ s.rest.sleeping = false ∧
      ∃ sem, sem < s.rest.numSemaphores ∧
        (s.rest.semaphore sem).value = 0 ∧
        (s.rest.framesOf s.rest.currentThread).head? =
          some (.pLoop sem)

variable
  {body : H → Interrupt H → Kernel → List (HandlerCall H Nat)}
variable {s s' : Sim H Kernel}

theorem reachable_kernel
    (hReach : (levels body).Reachable s) :
    (kernel (kernelDevice body) Kernel.NoSleep).Reachable
      s := by
  refine hReach.invariant ?_ ?_
  · intro s hInit
    exact .of_init hInit
  · intro s a t hs hAllowed hStep
    exact hs.of_step hAllowed.1 hStep

/- Threads that do not exist have not been forked. -/
theorem fresh_of_reachable
    (hReach : (levels body).Reachable s) :
    ¬ s.rest.Started s.rest.numThreads := by
  have hSleepers : ∀ k,
      Kernel.NoSleep (H := H) k .sleep → False :=
    fun _ hMay => hMay
  rcases (Kernel.preserved_placed _ hSleepers).of_reachable
    (reachable_kernel hReach) with ⟨place, hPlaced⟩
  intro hStarted
  apply hStarted
  rw [(hPlaced.thread _).status, hPlaced.fresh _ le_rfl]
  rfl

theorem orderly_create
    (pending : List (PendingInterrupt H)) :
    Orderly
      ⟨{ Interrupt.create with pending := pending },
        Kernel.create⟩ where
  inHandler := rfl
  asleep := fun _ => rfl
  started := by
    simp [Kernel.Started, Kernel.create, Kernel.push,
      Kernel.setFrames, Kernel.setStatus, Kernel.setThread,
      Kernel.newThread, Kernel.empty]
  fits := by
    intro t
    rw [levelOf_off _ rfl]
    by_cases hMain : t = 0
    · subst hMain
      exact ⟨.on, rfl⟩
    · refine ⟨.off, ?_⟩
      simp [Kernel.framesOf, Kernel.create, Kernel.push,
        Kernel.setFrames, Kernel.setStatus, Kernel.setThread,
        Kernel.newThread, Kernel.empty, Thread.create, hMain,
        levelAfter]

theorem orderly_of_reachable
    (hReach : (levels body).Reachable s) :
    s.Orderly := by
  have hBoth : (levels body).Reachable s ∧ s.Orderly := by
    refine hReach.invariant
      (P := fun s => (levels body).Reachable s ∧ s.Orderly)
      ?_ ?_
    · intro s hInit
      refine ⟨.of_init hInit, ?_⟩
      rcases hInit with ⟨pending, rfl⟩
      exact orderly_create pending
    · intro s a t hs hAllowed hStep
      refine ⟨hs.1.of_step hAllowed hStep, ?_⟩
      exact hs.2.of_moves (kernelStep_moves hs.2 hAllowed.1
        hAllowed.2 (fresh_of_reachable hs.1) hStep)
  exact hBoth.2

/- `SWITCH` is called with interrupts off. -/
theorem off_of_switches
    {a : KernelAction H}
    (hInv : s.Orderly)
    (hSwitch : s.Switches a)
    (hRun : kernelStep (kernelDevice body) s a = some s') :
    s'.interrupt.level = .off := by
  cases a with
  | call c => exact hSwitch.elim
  | advance =>
      rcases hSwitch with ⟨hHalted, hReady, hWhere⟩
      rw [kernelStep, advance, hHalted,
        if_neg Bool.false_ne_true] at hRun
      split at hRun
      · rename_i hAsleep
        rcases List.exists_cons_of_ne_nil hReady with
          ⟨next, readyList, hList⟩
        simp only [sleepLoop, hList] at hRun
        cases hRun
        exact hInv.asleep hAsleep
      · rename_i hAwake
        have hHead := hWhere.resolve_left hAwake
        rcases List.head?_eq_some_iff.mp hHead with
          ⟨frames, hTop⟩
        have hFrames :
            (s.rest.thread s.rest.currentThread).frames =
              .yield :: frames := hTop
        simp only [hFrames, resume] at hRun
        cases hRun
        rfl

/- The assertion at the start of `Sleep` holds. -/
theorem sleeps_of_enters
    {a : KernelAction H}
    (hInv : s.Orderly)
    (hEnters : s.EntersSleep a) :
    ∃ s', kernelStep (kernelDevice body) s a = some s' ∧
      s'.rest.sleeping = true ∧
      s'.interrupt.level = .off := by
  cases a with
  | call c =>
      cases c with
      | finish => exact ⟨_, rfl, rfl, rfl⟩
      | _ => exact hEnters.elim
  | advance =>
      rcases hEnters with
        ⟨hHalted, hAwake, sem, hRange, hValue, hHead⟩
      rcases List.head?_eq_some_iff.mp hHead with
        ⟨frames, hTop⟩
      rcases hInv.fits s.rest.currentThread with
        ⟨level, hFits⟩
      rw [hTop, levelOf_current rfl hAwake] at hFits
      have hOff : s.interrupt.level = .off :=
        (fits_of_levelAfter hFits).1
      have hFrames :
          (s.rest.thread s.rest.currentThread).frames =
            .pLoop sem :: frames := hTop
      refine ⟨⟨s.interrupt,
        (s.rest.setFrames s.rest.currentThread frames).wait
          sem⟩, ?_, rfl, hOff⟩
      simp [kernelStep, advance, hHalted, hAwake, hFrames,
        resume, pLoop, mapRest, Kernel.setFrames,
        Kernel.setThread, hRange, hValue, enterSleep, hOff]

/-
  A thread that will return with a level does so, whatever
  happens until then.
-/
theorem level_of_returned
    {t : Nat}
    {base : List Frame}
    {level : IntStatus}
    {actions : List (KernelAction H)}
    (hReach : (levels body).Reachable s)
    (hReturning : s.Returning t base level)
    (hRun :
      ((levels body).before (Returned t base)).Run s actions
        s')
    (hReturned : s'.Returned t base) :
    s'.interrupt.level = level := by
  have hBoth : (levels body).Reachable s' ∧
      s'.Returning t base level := by
    refine hRun.invariant
      (P := fun s => (levels body).Reachable s ∧
        s.Returning t base level) ?_ ⟨hReach, hReturning⟩
    intro s₁ a s₂ hs hAllowed hStep
    refine ⟨hs.1.of_step hAllowed.1 hStep, ?_⟩
    exact hs.2.of_moves hAllowed.2
      (kernelStep_moves (orderly_of_reachable hs.1)
        hAllowed.1.1 hAllowed.1.2 (fresh_of_reachable hs.1)
        hStep)
  exact hBoth.2.level_eq hReturned

/-
  The discipline in one state.  Handlers run with interrupts
  off: what they would do otherwise does not matter, and no
  call that they make changes the level.  A primitive returns
  when the thread that called it runs again with the frames
  from before the call; `Yield` is also called by `OneTick`.
-/
structure Disciplined
    (body :
      H → Interrupt H → Kernel → List (HandlerCall H Nat))
    (s : Sim H Kernel) : Prop where
  switch :
    ∀ a s', (levels body).allowed s a →
      (levels body).step s a = some s' →
      s.Switches a ∨
        s'.rest.currentThread ≠ s.rest.currentThread →
      s'.interrupt.level = .off ∧
        s'.interrupt.inHandler = false
  enterSleep :
    ∀ a, s.EntersSleep a →
      ∃ s', (levels body).step s a = some s' ∧
        s'.rest.sleeping = true ∧ s'.interrupt.level = .off
  asleep : s.rest.sleeping = true → s.interrupt.level = .off
  handlers :
    ∀ body' :
      H → Interrupt H → Kernel → List (HandlerCall H Nat),
      (∀ handler i k, i.level = .off → i.inHandler = true →
        body' handler i k = body handler i k) →
      ∀ a, (levels body').step s a = (levels body).step s a
  handlerCalls :
    ∀ call u v,
      perform (kernelDevice body) u call = some v →
      v.interrupt.level = u.interrupt.level
  calls :
    ∀ c s₁ actions s₂, c.IsPrimitive →
      (levels body).allowed s (.call c) →
      (levels body).step s (.call c) = some s₁ →
      ((levels body).before
        (Returned s.rest.currentThread [])).Run s₁ actions
        s₂ →
      s₂.Returned s.rest.currentThread [] →
      s₂.interrupt.level = s.interrupt.level
  yields :
    ∀ frames actions s₂, s.rest.sleeping = false →
      s.rest.framesOf s.rest.currentThread =
        .yield :: frames →
      ((levels body).before
        (Returned s.rest.currentThread frames)).Run s actions
        s₂ →
      s₂.Returned s.rest.currentThread frames →
      s₂.interrupt.level = s.interrupt.level

/- The discipline holds in every interleaving. -/
theorem disciplined_of_reachable
    (hReach : (levels body).Reachable s) :
    Disciplined body s := by
  have hInv := orderly_of_reachable hReach
  have hFresh := fresh_of_reachable hReach
  constructor
  case switch =>
    intro a s' hAllowed hStep hSwitch
    have hMoves := kernelStep_moves hInv hAllowed.1
      hAllowed.2 hFresh hStep
    refine ⟨?_, hMoves.inHandler⟩
    rcases hSwitch with hSwitch | hOther
    · exact off_of_switches hInv hSwitch hStep
    · exact hMoves.switch.resolve_left hOther
  case enterSleep =>
    intro a hEnters
    exact sleeps_of_enters hInv hEnters
  case asleep => exact hInv.asleep
  case handlers =>
    intro body' hBody a
    have hAgree : AgreeOff (kernelDevice body)
        (kernelDevice body') := ⟨rfl, rfl, hBody⟩
    exact kernelStep_eq hAgree s a
  case handlerCalls =>
    intro call u v hCall
    exact (perform_flags hCall).1
  case calls =>
    intro c s₁ actions s₂ hPrimitive hAllowed hStep hRun
      hReturned
    rcases call_moves hInv hAllowed.1 hAllowed.2 hFresh
      hStep with ⟨hMoves, hReturns⟩
    refine level_of_returned (hReach.of_step hAllowed hStep)
      ?_ hRun hReturned
    refine ⟨hMoves.started _ hInv.started,
      s₁.rest.framesOf s.rest.currentThread, ?_, ?_⟩
    · rw [List.append_nil]
    · exact hReturns hPrimitive
  case yields =>
    intro frames actions s₂ hAwake hTop hRun hReturned
    refine level_of_returned hReach ?_ hRun hReturned
    refine ⟨hInv.started, [.yield], hTop, ?_⟩
    rw [levelOf_current rfl hAwake]
    rfl

/- Main called `P` on an empty semaphore and will sleep. -/
theorem disciplined_of_waiting_main :
    ∃ s, (levels (fun (_ : Unit) _ _ => [])).Reachable s ∧
      s.rest.halted = false ∧ s.rest.sleeping = false ∧
      (s.rest.semaphore 0).value = 0 ∧
      s.rest.framesOf 0 = [.pLoop 0, .setLevel .on] ∧
      s.interrupt.level = .off ∧
      Disciplined (fun _ _ _ => []) s := by
  have hRun : ((levels fun _ _ _ => []).attempt quiet
      [.advance, .advance, .call (.newSemaphore 0),
        .call .newThread, .call (.fork 1), .advance, .advance,
        .call (.p 0)]).any (fun s =>
          s.rest.halted = false ∧ s.rest.sleeping = false ∧
          (s.rest.semaphore 0).value = 0 ∧
          s.rest.framesOf 0 = [.pLoop 0, .setLevel .on] ∧
          s.interrupt.level = .off) = true := by
    decide +kernel
  rcases (Option.any_eq_true _ _).mp hRun with
    ⟨s, hAttempt, hState⟩
  rw [decide_eq_true_eq] at hState
  have hStart :
      (levels (fun (_ : Unit) _ _ => [])).Reachable quiet :=
    .of_init ⟨[], rfl⟩
  have hReach := hStart.of_attempt hAttempt
  rcases hState with ⟨hHalted, hAwake, hValue, hFrames, hOff⟩
  exact ⟨s, hReach, hHalted, hAwake, hValue, hFrames, hOff,
    disciplined_of_reachable hReach⟩

end Sim

end Nachos
