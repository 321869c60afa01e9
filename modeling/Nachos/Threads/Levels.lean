import Nachos.Machine.HandlerLevel
import Nachos.Threads.Placement

/-
  What a step of the kernel does to the interrupt level.

  What is left of the primitives of a thread says with which
  level the thread will return.  Carrying out a frame keeps
  that level for the current thread, and other threads go on
  behind `SWITCH` with interrupts off.

  Main declarations:
    * `Sim.Orderly`
    * `Sim.Moves`
    * `Sim.Returning.of_moves`
    * `Sim.call_moves`
    * `Sim.kernelStep_moves`
-/

------------------------------------
-- Frames and Levels
------------------------------------

namespace Nachos

/- Can the frame be carried out at this level? -/
def Frame.Fits
    (level : IntStatus) :
    Frame → Prop
| .oneTick => level = .on
| .afterSwitch => level = .off
| .pLoop _ => level = .off
| _ => True

instance
    (level : IntStatus)
    (frame : Frame) :
    Decidable (frame.Fits level) :=
  match frame with
  | .oneTick => inferInstanceAs (Decidable (level = .on))
  | .afterSwitch => inferInstanceAs (Decidable (level = .off))
  | .pLoop _ => inferInstanceAs (Decidable (level = .off))
  | .setLevel _ | .yield | .restoreStatus _ => isTrue trivial

/- The level when the frame is done. -/
def Frame.after
    (level : IntStatus) :
    Frame → IntStatus
| .setLevel now => now
| _ => level

/-
  The level with which a thread returns that carries out these
  frames; `none` if one of them does not fit.
-/
def levelAfter :
    List Frame → IntStatus → Option IntStatus
| [], level => some level
| frame :: frames, level =>
    if frame.Fits level then
      levelAfter frames (frame.after level)
    else
      none

theorem levelAfter_append
    (above base : List Frame)
    (level : IntStatus) :
    levelAfter (above ++ base) level =
      (levelAfter above level).bind (levelAfter base) := by
  induction above generalizing level with
  | nil => rfl
  | cons frame above ih =>
      rw [List.cons_append, levelAfter, levelAfter]
      split
      · exact ih _
      · rfl

theorem fits_of_levelAfter
    {frame : Frame}
    {frames : List Frame}
    {level result : IntStatus}
    (hAfter :
      levelAfter (frame :: frames) level = some result) :
    frame.Fits level ∧
      levelAfter frames (frame.after level) = some result := by
  rw [levelAfter] at hAfter
  split at hAfter
  · rename_i hFits
    exact ⟨hFits, hAfter⟩
  · cases hAfter

namespace Kernel

def framesOf
    (k : Kernel)
    (t : Nat) :
    List Frame :=
  (k.thread t).frames

/- Has the thread been forked? -/
def Started
    (k : Kernel)
    (t : Nat) : Prop :=
  (k.thread t).status ≠ .justCreated

variable (k : Kernel)

theorem framesOf_setFrames
    (t : Nat)
    (frames : List Frame) :
    (k.setFrames t frames).framesOf =
      Function.update k.framesOf t frames := by
  funext u
  by_cases hEq : u = t
  · subst hEq
    simp [framesOf, setFrames, setThread]
  · simp [framesOf, setFrames, setThread, hEq]

theorem framesOf_push
    (frames : List Frame) :
    (k.push frames).framesOf =
      Function.update k.framesOf k.currentThread
        (frames ++ k.framesOf k.currentThread) :=
  k.framesOf_setFrames _ _

theorem framesOf_setStatus
    (t : Nat)
    (status : ThreadStatus) :
    (k.setStatus t status).framesOf = k.framesOf := by
  funext u
  by_cases hEq : u = t
  · subst hEq
    simp [framesOf, setStatus, setThread]
  · simp [framesOf, setStatus, setThread, hEq]

theorem started_setFrames
    (t : Nat)
    (frames : List Frame)
    (u : Nat) :
    (k.setFrames t frames).Started u ↔ k.Started u := by
  by_cases hEq : u = t
  · subst hEq
    simp [Started, setFrames, setThread]
  · simp [Started, setFrames, setThread, hEq]

/- A thread that is moved has been forked. -/
theorem started_setStatus
    {status : ThreadStatus}
    (hStatus : status ≠ .justCreated)
    (t : Nat)
    {u : Nat}
    (hStarted : k.Started u ∨ u = t) :
    (k.setStatus t status).Started u := by
  by_cases hEq : u = t
  · subst hEq
    simpa [Started, setStatus, setThread] using hStatus
  · have hOld := hStarted.resolve_right hEq
    simpa [Started, setStatus, setThread, hEq] using hOld

end Kernel

end Nachos

------------------------------------
-- Operations That Switch Nothing
------------------------------------

namespace Nachos

namespace Kernel

/- Nothing happened to what the threads are in. -/
structure Holds
    (k k' : Kernel) : Prop where
  framesOf : k'.framesOf = k.framesOf
  currentThread : k'.currentThread = k.currentThread
  sleeping : k'.sleeping = k.sleeping
  started : ∀ t, k.Started t → k'.Started t

variable {k k' k'' : Kernel}

theorem Holds.refl
    (k : Kernel) :
    k.Holds k :=
  ⟨rfl, rfl, rfl, fun _ h => h⟩

theorem Holds.trans
    (hFirst : k.Holds k')
    (hSecond : k'.Holds k'') :
    k.Holds k'' :=
  ⟨hSecond.framesOf.trans hFirst.framesOf,
    hSecond.currentThread.trans hFirst.currentThread,
    hSecond.sleeping.trans hFirst.sleeping,
    fun t h => hSecond.started t (hFirst.started t h)⟩

theorem holds_readyToRun
    (k : Kernel)
    (t : Nat) :
    k.Holds (k.readyToRun t) where
  framesOf := k.framesOf_setStatus t .ready
  currentThread := rfl
  sleeping := rfl
  started := fun _ h =>
    k.started_setStatus (by decide) t (Or.inl h)

theorem holds_v
    {sem : Nat}
    (hRun : k.v sem = some k') :
    k.Holds k' := by
  rcases Option.bind_eq_some_iff.mp hRun with
    ⟨value, _, hRest⟩
  split at hRest
  · cases hRest
    exact ⟨rfl, rfl, rfl, fun _ h => h⟩
  · rename_i t queue _
    cases hRest
    have hReady := k.holds_readyToRun t
    exact ⟨hReady.framesOf, rfl, rfl, hReady.started⟩

theorem holds_take
    {sem : Nat}
    (hRun : k.take sem = some k') :
    k.Holds k' := by
  rcases Option.bind_eq_some_iff.mp hRun with
    ⟨value, _, hEq⟩
  cases hEq
  exact ⟨rfl, rfl, rfl, fun _ h => h⟩

theorem holds_afterSwitch
    (hRun : k.afterSwitch = some k') :
    k.Holds k' := by
  unfold afterSwitch at hRun
  split at hRun
  · cases hRun
    exact ⟨rfl, rfl, rfl, fun _ h => h⟩
  · rename_i t _
    rcases Option.bind_eq_some_iff.mp hRun with
      ⟨k₁, hDelete, hEq⟩
    cases hEq
    unfold delete at hDelete
    split at hDelete
    · rcases Option.bind_eq_some_iff.mp hDelete with
        ⟨threadIDs, _, hEq⟩
      cases hEq
      -- only the count of deletions of `t` changes
      have hSame : ∀ u,
          (Function.update k.thread t
            { k.thread t with
              deletions := (k.thread t).deletions + 1 }
            u).frames = (k.thread u).frames ∧
          (Function.update k.thread t
            { k.thread t with
              deletions := (k.thread t).deletions + 1 }
            u).status = (k.thread u).status := by
        intro u
        by_cases hEq : u = t
        · subst hEq
          simp
        · simp [hEq]
      refine ⟨funext fun u => (hSame u).1, rfl, rfl, ?_⟩
      intro u hStarted hStatus
      exact hStarted ((hSame u).2.symm.trans hStatus)
    · cases hDelete

variable {H : Type}
variable
  {body : H → Interrupt H → Kernel → List (HandlerCall H Nat)}

/- Handlers only call `V`. -/
theorem stable_holds
    (k : Kernel) :
    Sim.Stable (kernelDevice body) fun s => k.Holds s.rest := by
  refine Sim.Stable.of_rest (fun _ hk => hk) ?_
  intro k₁ sem k₂ hk hRun
  simp only [kernelDevice] at hRun
  split at hRun
  · exact hk.trans (holds_v hRun)
  · cases hRun

end Kernel

end Nachos

------------------------------------
-- What a Step Does to Levels
------------------------------------

namespace Nachos

variable {H : Type}

namespace Sim

variable {frames : List Frame}
variable {t : Nat}

/-
  The level at which a thread goes on: a thread that does not
  run goes on behind `SWITCH`, with interrupts off.
-/
def levelOf
    (s : Sim H Kernel)
    (t : Nat) :
    IntStatus :=
  if t = s.rest.currentThread ∧ s.rest.sleeping = false then
    s.interrupt.level
  else
    .off

/- The frames of every thread fit the level it goes on with. -/
structure Orderly
    (s : Sim H Kernel) : Prop where
  inHandler : s.interrupt.inHandler = false
  asleep : s.rest.sleeping = true → s.interrupt.level = .off
  started : s.rest.Started s.rest.currentThread
  fits :
    ∀ t, ∃ level,
      levelAfter (s.rest.framesOf t) (s.levelOf t) =
        some level

/-
  What happened to the frames of the thread that ran: it made
  a call, carried out a frame, or was in the loop of `Sleep`.
-/
inductive Own
    (s s' : Sim H Kernel) : Prop
| call
    (level : IntStatus)
    (hAwake : s.rest.sleeping = false)
    (hFrames : s.rest.framesOf s.rest.currentThread = [])
    (hAfter :
      levelAfter (s'.rest.framesOf s.rest.currentThread)
        (s'.levelOf s.rest.currentThread) = some level)
| frame
    (frame : Frame)
    (frames above : List Frame)
    (hAwake : s.rest.sleeping = false)
    (hFrames :
      s.rest.framesOf s.rest.currentThread = frame :: frames)
    (hNew :
      s'.rest.framesOf s.rest.currentThread = above ++ frames)
    (hAfter :
      levelAfter above (s'.levelOf s.rest.currentThread) =
        some (frame.after
          (s.levelOf s.rest.currentThread)))
| asleep
    (above : List Frame)
    (hAsleep : s.rest.sleeping = true)
    (hNew :
      s'.rest.framesOf s.rest.currentThread =
        above ++ s.rest.framesOf s.rest.currentThread)
    (hAfter :
      levelAfter above (s'.levelOf s.rest.currentThread) =
        some .off)

/- What a step does to the levels of all threads. -/
structure Moves
    (s s' : Sim H Kernel) : Prop where
  inHandler : s'.interrupt.inHandler = false
  asleep : s'.rest.sleeping = true → s'.interrupt.level = .off
  started : ∀ t, s.rest.Started t → s'.rest.Started t
  current : s'.rest.Started s'.rest.currentThread
  switch :
    s'.rest.currentThread = s.rest.currentThread ∨
      s'.interrupt.level = .off
  others :
    ∀ t, t ≠ s.rest.currentThread → s'.levelOf t = .off
  kept :
    ∀ t, t ≠ s.rest.currentThread → s.rest.Started t →
      s'.rest.framesOf t = s.rest.framesOf t
  fresh :
    ∀ t, t ≠ s.rest.currentThread →
      s'.rest.framesOf t = s.rest.framesOf t ∨
      s'.rest.framesOf t = [] ∨
      s'.rest.framesOf t = [.setLevel .on]
  own : s.Own s'

variable {s s' : Sim H Kernel}

theorem levelOf_of_ne
    (hNe : t ≠ s.rest.currentThread) :
    s.levelOf t = .off := by
  rw [levelOf, if_neg fun h => hNe h.1]

theorem levelOf_current
    (hCurrent : s.rest.currentThread = t)
    (hAwake : s.rest.sleeping = false) :
    s.levelOf t = s.interrupt.level := by
  rw [levelOf, if_pos ⟨hCurrent.symm, hAwake⟩]

theorem levelOf_asleep
    (hAsleep : s.rest.sleeping = true)
    (t : Nat) :
    s.levelOf t = .off := by
  rw [levelOf, if_neg]
  rintro ⟨_, hAwake⟩
  rw [hAsleep] at hAwake
  exact Bool.noConfusion hAwake

theorem levelOf_off
    (s : Sim H Kernel)
    (hOff : s.interrupt.level = .off)
    (t : Nat) :
    s.levelOf t = .off := by
  unfold levelOf
  split
  · exact hOff
  · rfl

/- Where only the current thread has new frames. -/
theorem framesOf_of_update
    (hFrames :
      s'.rest.framesOf =
        Function.update s.rest.framesOf s.rest.currentThread
          frames)
    (t : Nat)
    (hNe : t ≠ s.rest.currentThread) :
    s'.rest.framesOf t = s.rest.framesOf t := by
  rw [hFrames, Function.update_of_ne hNe]

/-
  The thread that runs goes on; of the others only those that
  were not forked may have got other frames.
-/
theorem Moves.of_current
    (hInv : s.Orderly)
    (hHandler : s'.interrupt.inHandler = false)
    (hAsleep :
      s'.rest.sleeping = true → s'.interrupt.level = .off)
    (hCurrent :
      s'.rest.currentThread = s.rest.currentThread)
    (hStarted : ∀ t, s.rest.Started t → s'.rest.Started t)
    (hOthers :
      ∀ t, t ≠ s.rest.currentThread →
        s'.rest.framesOf t = s.rest.framesOf t ∨
        (¬ s.rest.Started t ∧
          (s'.rest.framesOf t = [] ∨
            s'.rest.framesOf t = [.setLevel .on])))
    (hOwn : s.Own s') :
    s.Moves s' where
  inHandler := hHandler
  asleep := hAsleep
  started := hStarted
  current := by
    rw [hCurrent]
    exact hStarted _ hInv.started
  switch := Or.inl hCurrent
  others := fun t hNe => levelOf_of_ne (by rwa [hCurrent])
  kept := by
    intro t hNe hOld
    rcases hOthers t hNe with hSame | ⟨hNot, _⟩
    · exact hSame
    · exact absurd hOld hNot
  fresh := by
    intro t hNe
    rcases hOthers t hNe with hSame | ⟨_, hNew⟩
    · exact Or.inl hSame
    · exact Or.inr hNew
  own := hOwn

/- The thread that runs goes on, and only its frames change. -/
theorem Moves.of_stay
    (hInv : s.Orderly)
    (hHandler : s'.interrupt.inHandler = false)
    (hAsleep :
      s'.rest.sleeping = true → s'.interrupt.level = .off)
    (hCurrent :
      s'.rest.currentThread = s.rest.currentThread)
    (hFrames :
      s'.rest.framesOf =
        Function.update s.rest.framesOf s.rest.currentThread
          frames)
    (hStarted : ∀ t, s.rest.Started t → s'.rest.Started t)
    (hOwn : s.Own s') :
    s.Moves s' :=
  .of_current hInv hHandler hAsleep hCurrent hStarted
    (fun t hNe => Or.inl (framesOf_of_update hFrames t hNe))
    hOwn

/- Another thread is dispatched with interrupts off. -/
theorem Moves.of_switch
    {next : Nat}
    (hHandler : s'.interrupt.inHandler = false)
    (hOff : s'.interrupt.level = .off)
    (hCurrent : s'.rest.currentThread = next)
    (hFrames :
      s'.rest.framesOf =
        Function.update s.rest.framesOf s.rest.currentThread
          frames)
    (hStarted :
      ∀ t, s.rest.Started t ∨ t = next → s'.rest.Started t)
    (hOwn : s.Own s') :
    s.Moves s' := by
  have hSame := framesOf_of_update hFrames
  exact
    { inHandler := hHandler
      asleep := fun _ => hOff
      started := fun t h => hStarted t (Or.inl h)
      current := hStarted _ (Or.inr hCurrent)
      switch := Or.inr hOff
      others := fun t _ => levelOf_off _ hOff t
      kept := fun t hNe _ => hSame t hNe
      fresh := fun t hNe => Or.inl (hSame t hNe)
      own := hOwn }

/- What moves in this way stays in order. -/
theorem Orderly.of_moves
    (hInv : s.Orderly)
    (hMoves : s.Moves s') :
    s'.Orderly := by
  refine ⟨hMoves.inHandler, hMoves.asleep, hMoves.current, ?_⟩
  intro t
  rcases hInv.fits t with ⟨level, hFits⟩
  by_cases hEq : t = s.rest.currentThread
  · subst hEq
    cases hMoves.own with
    | call level' _ _ hAfter => exact ⟨level', hAfter⟩
    | frame frame frames above _ hFrames hNew hAfter =>
        rw [hFrames] at hFits
        refine ⟨level, ?_⟩
        rw [hNew, levelAfter_append, hAfter, Option.bind_some]
        exact (fits_of_levelAfter hFits).2
    | asleep above hAsleep hNew hAfter =>
        rw [levelOf_asleep hAsleep] at hFits
        refine ⟨level, ?_⟩
        rw [hNew, levelAfter_append, hAfter, Option.bind_some]
        exact hFits
  · rw [levelOf_of_ne hEq] at hFits
    rw [hMoves.others t hEq]
    rcases hMoves.fresh t hEq with hSame | hNone | hRoot
    · rw [hSame]
      exact ⟨level, hFits⟩
    · rw [hNone]
      exact ⟨.off, rfl⟩
    · rw [hRoot]
      exact ⟨.on, rfl⟩

/- The thread has carried out everything above `base`. -/
def Returned
    (t : Nat)
    (base : List Frame)
    (s : Sim H Kernel) : Prop :=
  s.rest.currentThread = t ∧ s.rest.sleeping = false ∧
    s.rest.framesOf t = base

/- It will return there with this level. -/
def Returning
    (t : Nat)
    (base : List Frame)
    (level : IntStatus)
    (s : Sim H Kernel) : Prop :=
  s.rest.Started t ∧
    ∃ above, s.rest.framesOf t = above ++ base ∧
      levelAfter above (s.levelOf t) = some level

theorem Returning.of_moves
    {base : List Frame}
    {level : IntStatus}
    (hReturning : s.Returning t base level)
    (hNot : ¬ s.Returned t base)
    (hMoves : s.Moves s') :
    s'.Returning t base level := by
  rcases hReturning with ⟨hStarted, above, hFrames, hAfter⟩
  refine ⟨hMoves.started t hStarted, ?_⟩
  by_cases hEq : t = s.rest.currentThread
  · subst hEq
    cases hMoves.own with
    | call level' hAwake hNone _ =>
        rw [hFrames, List.append_eq_nil_iff] at hNone
        refine absurd ⟨rfl, hAwake, ?_⟩ hNot
        rw [hFrames, hNone.1, List.nil_append]
    | frame frame frames new hAwake hTop hNew hDone =>
        cases above with
        | nil => exact absurd ⟨rfl, hAwake, hFrames⟩ hNot
        | cons first above =>
            rw [hFrames, List.cons_append,
              List.cons.injEq] at hTop
            rcases hTop with ⟨rfl, rfl⟩
            refine ⟨new ++ above, ?_, ?_⟩
            · rw [hNew, List.append_assoc]
            · rw [levelAfter_append, hDone, Option.bind_some]
              exact (fits_of_levelAfter hAfter).2
    | asleep new hAsleep hNew hDone =>
        rw [levelOf_asleep hAsleep] at hAfter
        refine ⟨new ++ above, ?_, ?_⟩
        · rw [hNew, hFrames, List.append_assoc]
        · rw [levelAfter_append, hDone, Option.bind_some]
          exact hAfter
  · rw [levelOf_of_ne hEq] at hAfter
    refine ⟨above, ?_, ?_⟩
    · rw [hMoves.kept t hEq hStarted, hFrames]
    · rw [hMoves.others t hEq]
      exact hAfter

theorem Returning.level_eq
    {base : List Frame}
    {level : IntStatus}
    (hReturning : s.Returning t base level)
    (hReturned : s.Returned t base) :
    s.interrupt.level = level := by
  rcases hReturning with ⟨_, above, hFrames, hAfter⟩
  rcases hReturned with ⟨rfl, hAwake, hBase⟩
  rw [hBase, List.self_eq_append_left] at hFrames
  rw [hFrames, levelOf_current rfl hAwake] at hAfter
  exact Option.some.inj hAfter

end Sim

end Nachos

------------------------------------
-- Calls
------------------------------------

namespace Nachos

variable {H : Type}

namespace Sim

/- The calls that return with the level of their caller. -/
def KernelCall.IsPrimitive :
    KernelCall H → Prop
| .p _ | .v _ | .yield | .fork _ => True
| _ => False

/- User instructions are executed with interrupts on. -/
def MayAct
    (s : Sim H Kernel) :
    KernelAction H → Prop
| .call .oneTick => s.interrupt.level = .on
| _ => True

variable {s s' : Sim H Kernel}

/- The level with which the thread that ran will return. -/
def ReturnsWith
    (s s' : Sim H Kernel)
    (level : IntStatus) : Prop :=
  levelAfter (s'.rest.framesOf s.rest.currentThread)
    (s'.levelOf s.rest.currentThread) = some level

/-
  The caller goes on; only threads that were not forked may
  have got other frames.
-/
theorem moves_of_call
    (s' : Sim H Kernel)
    (level : IntStatus)
    (hInv : s.Orderly)
    (hOut : s.rest.Outside)
    (hHandler : s'.interrupt.inHandler = false)
    (hCurrent :
      s'.rest.currentThread = s.rest.currentThread)
    (hAwake : s'.rest.sleeping = false)
    (hStarted : ∀ t, s.rest.Started t → s'.rest.Started t)
    (hOthers :
      ∀ t, t ≠ s.rest.currentThread →
        s'.rest.framesOf t = s.rest.framesOf t ∨
        (¬ s.rest.Started t ∧
          (s'.rest.framesOf t = [] ∨
            s'.rest.framesOf t = [.setLevel .on])))
    (hAfter :
      levelAfter (s'.rest.framesOf s.rest.currentThread)
        s'.interrupt.level = some level) :
    s.Moves s' ∧ s.ReturnsWith s' level := by
  have hReturns : s.ReturnsWith s' level := by
    unfold ReturnsWith
    rw [levelOf_current hCurrent hAwake]
    exact hAfter
  have hAsleep : s'.rest.sleeping = true →
      s'.interrupt.level = .off := by
    intro hAsleep
    rw [hAwake] at hAsleep
    exact Bool.noConfusion hAsleep
  exact ⟨.of_current hInv hHandler hAsleep hCurrent hStarted
    hOthers (.call level hOut.1 hOut.2 hReturns), hReturns⟩

/- A call after which the caller is in no primitive. -/
theorem moves_of_holds
    (hInv : s.Orderly)
    (hOut : s.rest.Outside)
    (hHandler : s'.interrupt.inHandler = false)
    (hHolds : s.rest.Holds s'.rest) :
    s.Moves s' := by
  have hNone : s.rest.framesOf s.rest.currentThread = [] :=
    hOut.2
  refine (moves_of_call s' s'.interrupt.level hInv hOut
    hHandler hHolds.currentThread
    (hHolds.sleeping.trans hOut.1) hHolds.started ?_ ?_).1
  · intro t _
    rw [hHolds.framesOf]
    exact Or.inl rfl
  · rw [hHolds.framesOf, hNone]
    rfl

/- A call that leaves frames to be carried out. -/
theorem moves_of_push
    (i : Interrupt H)
    (frames : List Frame)
    {k : Kernel}
    {level : IntStatus}
    (hInv : s.Orderly)
    (hOut : s.rest.Outside)
    (hHandler : i.inHandler = false)
    (hHolds : s.rest.Holds k)
    (hAfter : levelAfter frames i.level = some level) :
    s.Moves ⟨i, k.push frames⟩ ∧
      s.ReturnsWith ⟨i, k.push frames⟩ level := by
  have hNone : s.rest.framesOf s.rest.currentThread = [] :=
    hOut.2
  have hFrames : (k.push frames).framesOf =
      Function.update s.rest.framesOf s.rest.currentThread
        frames := by
    rw [k.framesOf_push, hHolds.framesOf,
      hHolds.currentThread, hNone, List.append_nil]
  refine moves_of_call _ level hInv hOut hHandler
    hHolds.currentThread (hHolds.sleeping.trans hOut.1) ?_ ?_
    ?_
  · intro t hStarted
    exact (k.started_setFrames _ _ t).mpr
      (hHolds.started t hStarted)
  · intro t hNe
    left
    rw [hFrames, Function.update_of_ne hNe]
  · rw [hFrames, Function.update_self]
    exact hAfter

/- A new thread has no frames. -/
theorem newThread_moves
    (hInv : s.Orderly)
    (hOut : s.rest.Outside)
    (hFresh : ¬ s.rest.Started s.rest.numThreads) :
    s.Moves (s.mapRest (·.newThread)) := by
  have hFrames : s.rest.newThread.framesOf =
      Function.update s.rest.framesOf s.rest.numThreads
        [] := by
    funext t
    by_cases hEq : t = s.rest.numThreads
    · subst hEq
      simp [Kernel.framesOf, Kernel.newThread,
        Kernel.setThread, Thread.create]
    · simp [Kernel.framesOf, Kernel.newThread,
        Kernel.setThread, hEq]
  have hNone : s.rest.framesOf s.rest.currentThread = [] :=
    hOut.2
  have hNe : s.rest.currentThread ≠ s.rest.numThreads := by
    intro hEq
    exact hFresh (hEq ▸ hInv.started)
  refine (moves_of_call (s.mapRest (·.newThread))
    s.interrupt.level hInv hOut hInv.inHandler rfl hOut.1
    ?_ ?_ ?_).1
  · intro t hStarted
    have hOther : t ≠ s.rest.numThreads := by
      intro hEq
      exact hFresh (hEq ▸ hStarted)
    simpa [Kernel.Started, mapRest, Kernel.newThread,
      Kernel.setThread, hOther] using hStarted
  · intro t _
    dsimp only [mapRest]
    rw [hFrames]
    by_cases hEq : t = s.rest.numThreads
    · subst hEq
      rw [Function.update_self]
      exact Or.inr ⟨hFresh, Or.inl rfl⟩
    · rw [Function.update_of_ne hEq]
      exact Or.inl rfl
  · dsimp only [mapRest]
    rw [hFrames, Function.update_of_ne hNe, hNone]
    rfl

/- A forked thread begins by enabling interrupts. -/
theorem fork_moves
    (hInv : s.Orderly)
    (hOut : s.rest.Outside)
    {t : Nat}
    (hNew : (s.rest.thread t).status = .justCreated) :
    let s' := s.disable.mapRest fun k =>
      (k.fork t).push [.setLevel s.interrupt.level]
    s.Moves s' ∧ s.ReturnsWith s' s.interrupt.level := by
  intro s'
  have hNot : ¬ s.rest.Started t := fun h => h hNew
  have hNe : s.rest.currentThread ≠ t := by
    intro hEq
    exact hNot (hEq ▸ hInv.started)
  have hForked : (s.rest.fork t).framesOf =
      Function.update s.rest.framesOf t [.setLevel .on] := by
    exact (Kernel.framesOf_setStatus _ _ _).trans
      (s.rest.framesOf_setFrames _ _)
  have hNone : s.rest.framesOf s.rest.currentThread = [] :=
    hOut.2
  have hFrames : s'.rest.framesOf =
      Function.update
        (Function.update s.rest.framesOf t [.setLevel .on])
        s.rest.currentThread
        [.setLevel s.interrupt.level] := by
    refine ((s.rest.fork t).framesOf_push _).trans ?_
    have hSame : (s.rest.fork t).currentThread =
        s.rest.currentThread := rfl
    rw [hForked, hSame, Function.update_of_ne hNe, hNone,
      List.append_nil]
  refine moves_of_call s' _ hInv hOut hInv.inHandler rfl
    hOut.1 ?_ ?_ ?_
  · intro u hStarted
    refine (Kernel.started_setFrames _ _ _ u).mpr ?_
    refine Kernel.started_setStatus _ (by decide) t
      (Or.inl ?_)
    exact (s.rest.started_setFrames _ _ u).mpr hStarted
  · intro u hOther
    rw [hFrames, Function.update_of_ne hOther]
    by_cases hEq : u = t
    · subst hEq
      rw [Function.update_self]
      exact Or.inr ⟨hNot, Or.inr rfl⟩
    · rw [Function.update_of_ne hEq]
      exact Or.inl rfl
  · rw [hFrames, Function.update_self]
    rfl

/- A thread that finishes sleeps with interrupts off. -/
theorem finish_moves
    (hInv : s.Orderly)
    (hOut : s.rest.Outside) :
    s.Moves (s.disable.mapRest (·.finish)) := by
  have hFrames :
      s.rest.finish.framesOf = s.rest.framesOf := by
    funext t
    by_cases hEq : t = s.rest.currentThread
    · subst hEq
      simp [Kernel.framesOf, Kernel.finish, Kernel.block,
        Kernel.setStatus, Kernel.setThread]
    · simp [Kernel.framesOf, Kernel.finish, Kernel.block,
        Kernel.setStatus, Kernel.setThread, hEq]
  have hNone : s.rest.framesOf s.rest.currentThread = [] :=
    hOut.2
  refine Moves.of_stay hInv hInv.inHandler (fun _ => rfl) rfl
    (hFrames.trans (Function.update_eq_self _ _).symm) ?_ ?_
  · intro t hStarted
    by_cases hEq : t = s.rest.currentThread
    · subst hEq
      simp [Kernel.Started, mapRest, disable, Kernel.finish,
        Kernel.block, Kernel.setStatus, Kernel.setThread]
    · simpa [Kernel.Started, mapRest, disable, Kernel.finish,
        Kernel.block, Kernel.setStatus, Kernel.setThread, hEq]
        using hStarted
  · refine .call .off hOut.1 hNone ?_
    dsimp only [mapRest, disable]
    rw [hFrames, hNone, levelOf_asleep rfl]
    rfl

theorem setLevel_moves
    (hInv : s.Orderly)
    (hOut : s.rest.Outside)
    {now : IntStatus}
    (hRun : s.setLevel now = some s') :
    s.Moves s' := by
  rcases Option.bind_eq_some_iff.mp hRun with
    ⟨⟨tick, i⟩, hLevel, hRest⟩
  simp only [Interrupt.setLevel, hInv.inHandler, or_true,
    if_true, Option.some.injEq, Prod.mk.injEq] at hLevel
  rcases hLevel with ⟨hTick, rfl⟩
  dsimp only at hRest
  split at hRest
  · rename_i hTrue
    rw [hTrue, decide_eq_true_eq] at hTick
    rcases hTick with ⟨rfl, _⟩
    cases hRest
    exact (moves_of_push (s.interrupt.changeLevel .on)
      [.oneTick] hInv hOut hInv.inHandler (.refl _) rfl).1
  · cases hRest
    exact moves_of_holds hInv hOut hInv.inHandler (.refl _)

/- What the calls do to the levels. -/
theorem call_moves
    {c : KernelCall H}
    (hInv : s.Orderly)
    (hAllowed : KernelAllowed Kernel.NoSleep s (.call c))
    (hMay : s.MayAct (.call c))
    (hFresh : ¬ s.rest.Started s.rest.numThreads)
    (hRun : s.call c = some s') :
    s.Moves s' ∧
      (c.IsPrimitive →
        s.ReturnsWith s' s.interrupt.level) := by
  rcases hAllowed with ⟨hOut, hRange, hNoSleep⟩
  have hHandler := hInv.inHandler
  cases c with
  | newThread =>
      cases hRun
      exact ⟨newThread_moves hInv hOut hFresh, False.elim⟩
  | newSemaphore initialValue =>
      cases hRun
      refine ⟨moves_of_holds hInv hOut hHandler ?_,
        False.elim⟩
      exact ⟨rfl, rfl, rfl, fun _ h => h⟩
  | fork t =>
      cases hRun
      have hMoves := fork_moves hInv hOut hRange.2
      exact ⟨hMoves.1, fun _ => hMoves.2⟩
  | yield =>
      cases hRun
      have hMoves := moves_of_push s.interrupt [.yield] hInv
        hOut hHandler (.refl _) rfl
      exact ⟨hMoves.1, fun _ => hMoves.2⟩
  | sleep => exact hNoSleep.elim
  | finish =>
      cases hRun
      exact ⟨finish_moves hInv hOut, False.elim⟩
  | p sem =>
      cases hRun
      have hMoves := moves_of_push
        (s.interrupt.changeLevel .off)
        [.pLoop sem, .setLevel s.interrupt.level] hInv hOut
        hHandler (.refl _) rfl
      exact ⟨hMoves.1, fun _ => hMoves.2⟩
  | v sem =>
      rcases Option.bind_eq_some_iff.mp hRun with
        ⟨k, hV, hEq⟩
      cases hEq
      have hMoves := moves_of_push
        (s.interrupt.changeLevel .off)
        [.setLevel s.interrupt.level] hInv hOut hHandler
        (Kernel.holds_v hV) rfl
      exact ⟨hMoves.1, fun _ => hMoves.2⟩
  | setLevel now =>
      exact ⟨setLevel_moves hInv hOut hRun, False.elim⟩
  | oneTick =>
      cases hRun
      have hOn : s.interrupt.level = .on := hMay
      have hAfter :
          levelAfter [.oneTick] s.interrupt.level =
            some .on := by
        rw [hOn]
        rfl
      exact ⟨(moves_of_push _ _ hInv hOut hHandler (.refl _)
        hAfter).1, False.elim⟩
  | setStatus status =>
      cases hRun
      exact ⟨moves_of_holds hInv hOut hHandler (.refl _),
        False.elim⟩
  | schedule handler fromNow type =>
      rcases Option.bind_eq_some_iff.mp hRun with
        ⟨i, hSchedule, hEq⟩
      cases hEq
      have hFlag : i.inHandler = false := by
        rcases Interrupt.schedule_cases hSchedule with
          ⟨_, _, _, _, _, _, rfl⟩
        exact hHandler
      exact ⟨moves_of_holds hInv hOut hFlag (.refl _),
        False.elim⟩

end Sim

end Nachos

------------------------------------
-- Carrying Out Frames
------------------------------------

namespace Nachos

variable {H : Type}
variable
  {body : H → Interrupt H → Kernel → List (HandlerCall H Nat)}

namespace Kernel

theorem push_nil
    (k : Kernel) :
    k.push [] = k := by
  simp [push, setFrames, setThread]

/- The old thread goes on behind `SWITCH`. -/
theorem framesOf_run
    (k : Kernel)
    (next : Nat) :
    (k.run next).framesOf =
      Function.update k.framesOf k.currentThread
        (.afterSwitch :: k.framesOf k.currentThread) :=
  ((k.push [.afterSwitch]).framesOf_setStatus next
    .running).trans (k.framesOf_push _)

theorem started_run
    (k : Kernel)
    (next : Nat)
    {t : Nat}
    (hStarted : k.Started t ∨ t = next) :
    (k.run next).Started t := by
  refine Kernel.started_setStatus _ (by decide) next ?_
  rcases hStarted with hOld | hNext
  · exact Or.inl ((k.started_setFrames _ _ t).mpr hOld)
  · exact Or.inr hNext

/- A frame is replaced by others. -/
theorem framesOf_pop_push
    (k : Kernel)
    (frames above : List Frame) :
    ((k.setFrames k.currentThread frames).push
      above).framesOf =
      Function.update k.framesOf k.currentThread
        (above ++ frames) := by
  have hCurrent :
      (k.setFrames k.currentThread frames).currentThread =
        k.currentThread := rfl
  rw [framesOf_push, framesOf_setFrames, hCurrent,
    Function.update_self, Function.update_idem]

/- `Yield` switches if some thread is ready. -/
theorem yield_cases
    (k : Kernel)
    (old : IntStatus) :
    k.yield old = k.push [.setLevel old] ∨
      ∃ queued next,
        (k.push [.setLevel old]).Holds queued ∧
        k.yield old = queued.run next := by
  unfold yield
  dsimp only
  split
  · exact Or.inl rfl
  · rename_i next readyList _
    refine Or.inr ⟨_, next, ?_, rfl⟩
    have hReady := holds_readyToRun
      { k.push [.setLevel old] with readyList := readyList }
      k.currentThread
    exact ⟨hReady.framesOf, rfl, rfl, hReady.started⟩

end Kernel

namespace Sim

variable {s s' : Sim H Kernel}
variable {frames : List Frame}
variable {frame : Frame}

/- One round of the loop of `Sleep`. -/
theorem sleepLoop_moves
    (hInv : s.Orderly)
    (hAsleep : s.rest.sleeping = true)
    (hRun : s.sleepLoop (kernelDevice body) = some s') :
    s.Moves s' := by
  have hOff := hInv.asleep hAsleep
  unfold sleepLoop at hRun
  split at hRun
  · rename_i next readyList _
    cases hRun
    have hFrames :=
      ({ s.rest with readyList := readyList } :
        Kernel).framesOf_run next
    refine Moves.of_switch hInv.inHandler hOff rfl hFrames
      (fun t hStarted => Kernel.started_run _ next hStarted) ?_
    refine .asleep [.afterSwitch] hAsleep ?_ ?_
    · exact (congrFun hFrames _).trans
        (Function.update_self _ _ _)
    · rw [levelOf_off (s.mapRest _) hOff]
      rfl
  · rcases Option.bind_eq_some_iff.mp hRun with
      ⟨⟨fired, t⟩, hIdle, hRest⟩
    have hHolds : s.rest.Holds t.rest :=
      (Kernel.stable_holds s.rest).steady.idle (.refl _) hIdle
    rcases idle_flags hIdle with ⟨hOff', hHandler⟩
    have hMoves : ∀ halted,
        s.Moves ⟨t.interrupt,
          { t.rest with halted := halted }⟩ := by
      intro halted
      refine Moves.of_stay hInv (hHandler hInv.inHandler)
        (fun _ => hOff') hHolds.currentThread
        (hHolds.framesOf.trans
          (Function.update_eq_self _ _).symm)
        hHolds.started ?_
      refine .asleep [] hAsleep ?_ ?_
      · exact congrFun hHolds.framesOf _
      · exact congrArg (levelAfter []) (levelOf_off _ hOff' _)
    dsimp only at hRest
    split at hRest
    · cases hRest
      exact hMoves s'.rest.halted
    · cases hRest
      exact hMoves true

/- The thread carries out a frame and goes on with others. -/
theorem moves_of_resume
    (i : Interrupt H)
    (above : List Frame)
    {k : Kernel}
    (hInv : s.Orderly)
    (hAwake : s.rest.sleeping = false)
    (hTop :
      s.rest.framesOf s.rest.currentThread = frame :: frames)
    (hHandler : i.inHandler = false)
    (hHolds :
      (s.rest.setFrames s.rest.currentThread frames).Holds k)
    (hAfter :
      levelAfter above i.level =
        some (frame.after s.interrupt.level)) :
    s.Moves ⟨i, k.push above⟩ := by
  have hFrames : (k.push above).framesOf =
      Function.update s.rest.framesOf s.rest.currentThread
        (above ++ frames) := by
    have hCurrent : k.currentThread = s.rest.currentThread :=
      hHolds.currentThread
    rw [k.framesOf_push, hHolds.framesOf, hCurrent,
      s.rest.framesOf_setFrames, Function.update_self,
      Function.update_idem]
  have hAwake' : (k.push above).sleeping = false :=
    hHolds.sleeping.trans hAwake
  refine Moves.of_stay hInv hHandler ?_ hHolds.currentThread
    hFrames ?_ ?_
  · intro hAsleep
    exact Bool.noConfusion (hAsleep.symm.trans hAwake')
  · intro t hStarted
    refine (k.started_setFrames _ _ t).mpr (hHolds.started t ?_)
    exact (s.rest.started_setFrames _ _ t).mpr hStarted
  · refine .frame frame frames above hAwake hTop ?_ ?_
    · exact (congrFun hFrames _).trans
        (Function.update_self _ _ _)
    · rw [levelOf_current hHolds.currentThread hAwake',
        levelOf_current rfl hAwake]
      exact hAfter

/- The same when nothing more is left to do for the frame. -/
theorem moves_of_done
    (i : Interrupt H)
    {k : Kernel}
    (hInv : s.Orderly)
    (hAwake : s.rest.sleeping = false)
    (hTop :
      s.rest.framesOf s.rest.currentThread = frame :: frames)
    (hHandler : i.inHandler = false)
    (hHolds :
      (s.rest.setFrames s.rest.currentThread frames).Holds k)
    (hLevel : i.level = frame.after s.interrupt.level) :
    s.Moves ⟨i, k⟩ := by
  have hMoves := moves_of_resume i [] hInv hAwake hTop
    hHandler hHolds (congrArg some hLevel)
  rwa [k.push_nil] at hMoves

/- Yielding switches to the first thread that is ready. -/
theorem yield_moves
    (hInv : s.Orderly)
    (hAwake : s.rest.sleeping = false)
    (hTop :
      s.rest.framesOf s.rest.currentThread =
        .yield :: frames) :
    s.Moves ⟨s.interrupt.changeLevel .off,
      (s.rest.setFrames s.rest.currentThread frames).yield
        s.interrupt.level⟩ := by
  let i := s.interrupt.changeLevel .off
  let k := s.rest.setFrames s.rest.currentThread frames
  have hStays : s.Moves
      ⟨i, k.push [.setLevel s.interrupt.level]⟩ :=
    moves_of_resume i _ hInv hAwake hTop hInv.inHandler
      (.refl _) rfl
  show s.Moves ⟨i, k.yield s.interrupt.level⟩
  rcases k.yield_cases s.interrupt.level with
    hEq | ⟨queued, next, hHolds, hEq⟩
  · rw [hEq]
    exact hStays
  · rw [hEq]
    have hCurrent :
        queued.currentThread = s.rest.currentThread :=
      hHolds.currentThread
    have hFrames : (queued.run next).framesOf =
        Function.update s.rest.framesOf s.rest.currentThread
          (.afterSwitch :: .setLevel s.interrupt.level ::
            frames) := by
      rw [queued.framesOf_run, hHolds.framesOf, hCurrent,
        Kernel.framesOf_pop_push, Function.update_self,
        Function.update_idem]
      rfl
    refine Moves.of_switch hInv.inHandler rfl rfl hFrames ?_ ?_
    · intro t hStarted
      refine queued.started_run next ?_
      exact hStarted.imp_left fun h =>
        hHolds.started t (hStays.started t h)
    · refine .frame .yield frames
        [.afterSwitch, .setLevel s.interrupt.level] hAwake
        hTop ?_ ?_
      · exact (congrFun hFrames _).trans
          (Function.update_self _ _ _)
      · rw [levelOf_current rfl hAwake]
        exact congrArg (levelAfter _) (levelOf_off _ rfl _)

/- A thread that waits for a semaphore looks again later. -/
theorem wait_moves
    {sem : Nat}
    (hInv : s.Orderly)
    (hAwake : s.rest.sleeping = false)
    (hTop :
      s.rest.framesOf s.rest.currentThread =
        .pLoop sem :: frames)
    (hOff : s.interrupt.level = .off) :
    s.Moves ⟨s.interrupt,
      (s.rest.setFrames s.rest.currentThread frames).wait
        sem⟩ := by
  let k := s.rest.setFrames s.rest.currentThread frames
  have hFrames : (k.wait sem).framesOf =
      Function.update s.rest.framesOf s.rest.currentThread
        (.pLoop sem :: frames) := by
    refine (Kernel.framesOf_setStatus _ _ _).trans ?_
    refine (Kernel.framesOf_push _ _).trans ?_
    have hSame : ∀ semaphore,
        (k.setSemaphore sem semaphore).framesOf =
          Function.update s.rest.framesOf
            s.rest.currentThread frames :=
      fun _ => s.rest.framesOf_setFrames _ _
    have hCurrent : ∀ semaphore,
        (k.setSemaphore sem semaphore).currentThread =
          s.rest.currentThread := fun _ => rfl
    rw [hSame, hCurrent, Function.update_self,
      Function.update_idem]
    rfl
  refine Moves.of_stay hInv hInv.inHandler (fun _ => hOff) rfl
    hFrames ?_ ?_
  · intro t hStarted
    refine Kernel.started_setStatus _ (by decide) _
      (Or.inl ?_)
    refine (Kernel.started_setFrames _ _ _ t).mpr ?_
    exact (s.rest.started_setFrames _ _ t).mpr hStarted
  · refine .frame (.pLoop sem) frames [.pLoop sem] hAwake hTop
      ?_ ?_
    · exact (congrFun hFrames _).trans
        (Function.update_self _ _ _)
    · rw [levelOf_asleep rfl, levelOf_current rfl hAwake, hOff]
      rfl

/- What carrying out a frame does to the levels. -/
theorem resume_moves
    (hInv : s.Orderly)
    (hAwake : s.rest.sleeping = false)
    (hTop :
      s.rest.framesOf s.rest.currentThread = frame :: frames)
    (hRun :
      resume (kernelDevice body)
        ⟨s.interrupt,
          s.rest.setFrames s.rest.currentThread frames⟩
        frame = some s') :
    s.Moves s' := by
  have hHandler := hInv.inHandler
  have hFits : frame.Fits s.interrupt.level := by
    rcases hInv.fits s.rest.currentThread with ⟨level, hFits⟩
    rw [hTop, levelOf_current rfl hAwake] at hFits
    exact (fits_of_levelAfter hFits).1
  cases frame with
  | setLevel now =>
      rcases Option.bind_eq_some_iff.mp hRun with
        ⟨⟨tick, i⟩, hLevel, hRest⟩
      simp only [Interrupt.setLevel, hHandler, or_true,
        if_true, Option.some.injEq, Prod.mk.injEq] at hLevel
      rcases hLevel with ⟨hTick, rfl⟩
      dsimp only at hRest
      split at hRest
      · rename_i hTrue
        rw [hTrue, decide_eq_true_eq] at hTick
        rcases hTick with ⟨rfl, _⟩
        cases hRest
        exact moves_of_resume _ _ hInv hAwake hTop hHandler
          (.refl _) rfl
      · cases hRest
        exact moves_of_done _ hInv hAwake hTop hHandler
          (.refl _) rfl
  | oneTick =>
      rcases Option.bind_eq_some_iff.mp hRun with
        ⟨⟨yield, t⟩, hTick, hRest⟩
      have hHolds :=
        (Kernel.stable_holds _).steady.oneTick (.refl _) hTick
      rcases oneTick_flags hTick with ⟨hOn, hLeft⟩
      have hLevel : t.interrupt.level = s.interrupt.level :=
        hOn.trans (Eq.symm hFits)
      cases yield with
      | some old =>
          cases hRest
          refine moves_of_resume _ _ hInv hAwake hTop
            (hLeft hHandler) hHolds ?_
          exact congrArg some hLevel
      | none =>
          cases hRest
          exact moves_of_done _ hInv hAwake hTop
            (hLeft hHandler) hHolds hLevel
  | yield =>
      cases hRun
      exact yield_moves hInv hAwake hTop
  | restoreStatus old =>
      cases hRun
      exact moves_of_done _ hInv hAwake hTop hHandler
        (.refl _) rfl
  | afterSwitch =>
      rcases Option.bind_eq_some_iff.mp hRun with
        ⟨k, hSwitch, hEq⟩
      cases hEq
      exact moves_of_done _ hInv hAwake hTop hHandler
        (Kernel.holds_afterSwitch hSwitch) rfl
  | pLoop sem =>
      have hOff : s.interrupt.level = .off := hFits
      simp only [resume, pLoop] at hRun
      split at hRun
      · split at hRun
        · simp only [enterSleep, hOff, if_true] at hRun
          cases hRun
          exact wait_moves hInv hAwake hTop hOff
        · rcases Option.bind_eq_some_iff.mp hRun with
            ⟨k, hTake, hEq⟩
          cases hEq
          exact moves_of_done _ hInv hAwake hTop hHandler
            (Kernel.holds_take hTake) rfl
      · cases hRun

theorem advance_moves
    (hInv : s.Orderly)
    (hRun : s.advance (kernelDevice body) = some s') :
    s.Moves s' := by
  unfold advance at hRun
  split at hRun
  · cases hRun
  · split at hRun
    · rename_i hAsleep
      exact sleepLoop_moves hInv hAsleep hRun
    · rename_i hAwake
      split at hRun
      · cases hRun
      · rename_i frame frames hTop
        exact resume_moves hInv (Bool.eq_false_iff.mpr hAwake)
          hTop hRun

/- What every step does to the levels. -/
theorem kernelStep_moves
    {a : KernelAction H}
    (hInv : s.Orderly)
    (hAllowed : KernelAllowed Kernel.NoSleep s a)
    (hMay : s.MayAct a)
    (hFresh : ¬ s.rest.Started s.rest.numThreads)
    (hRun : kernelStep (kernelDevice body) s a = some s') :
    s.Moves s' := by
  cases a with
  | call c =>
      exact (call_moves hInv hAllowed hMay hFresh hRun).1
  | advance => exact advance_moves hInv hRun

/- Handlers matter to a step only with interrupts off. -/
theorem kernelStep_eq
    {dev dev' : Device H Kernel Nat}
    (hAgree : AgreeOff dev dev')
    (s : Sim H Kernel)
    (a : KernelAction H) :
    kernelStep dev' s a = kernelStep dev s a := by
  cases a with
  | call c => rfl
  | advance =>
      simp only [kernelStep, advance, sleepLoop,
        hAgree.idle_eq]
      congr 2
      split
      · rfl
      · rename_i frame frames _
        cases frame with
        | oneTick => simp only [resume, hAgree.oneTick_eq]
        | setLevel now => rfl
        | yield => rfl
        | restoreStatus old => rfl
        | afterSwitch => rfl
        | pLoop sem => rfl

end Sim

end Nachos
