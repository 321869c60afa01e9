import Nachos.Threads.Kernel

/-
  The scheduler is fair: nobody is overtaken.

  A log beside the kernel says which threads were dispatched
  so far.  The log followed by the ready list only ever grows
  at its end, whatever threads and handlers do.  So a thread
  in the ready list runs after exactly those before it.

  Main declarations:
    * `Kernel.dispatches`
    * `Scheduled`
    * `Scheduled.order_of_run`
    * `Scheduled.dispatched_in_turn`
-/

------------------------------------
-- The Log of Dispatched Threads
------------------------------------

namespace Nachos

variable {H : Type}

/-
  Whom a frame dispatches: `Yield` takes the next thread from
  the front of the ready list.
-/
def Frame.dispatches
    (readyList : List Nat) :
    Frame → List Nat
| .yield => readyList.take 1
| _ => []

/-
  Whom the current thread dispatches when it goes on.  The
  loop of `Sleep` takes from the front as `Yield` does.
-/
def Kernel.dispatches
    (k : Kernel) :
    List Nat :=
  if k.sleeping then
    k.readyList.take 1
  else
    match (k.thread k.currentThread).frames with
    | [] => []
    | frame :: _ => frame.dispatches k.readyList

/- The main thread counts as the first to be dispatched. -/
structure Scheduled (H : Type) where
  sim : Sim H Kernel
  log : List Nat

namespace Scheduled

def dispatchedBy
    (k : Kernel) :
    Sim.KernelAction H → List Nat
| .call _ => []
| .advance => k.dispatches

/- The kernel with the log. -/
def scheduler
    (dev : Device H Kernel Nat)
    (mayCall : Kernel → Sim.KernelCall H → Prop) :
    Transition.System (Scheduled H) (Sim.KernelAction H) where
  init := fun s =>
    (Sim.kernel dev mayCall).init s.sim ∧ s.log = [0]
  allowed := fun s => (Sim.kernel dev mayCall).allowed s.sim
  step := fun s action =>
    (Sim.kernelStep dev s.sim action).map fun t =>
      ⟨t, s.log ++ dispatchedBy s.sim.rest action⟩

instance
    {dev : Device H Kernel Nat}
    {mayCall : Kernel → Sim.KernelCall H → Prop}
    [∀ k c, Decidable (mayCall k c)]
    (s : Scheduled H)
    (a : Sim.KernelAction H) :
    Decidable ((scheduler dev mayCall).allowed s a) :=
  inferInstanceAs
    (Decidable (Sim.KernelAllowed mayCall s.sim a))

/- All threads in the order in which they became ready. -/
def order
    (s : Scheduled H) :
    List Nat :=
  s.log ++ s.sim.rest.readyList

end Scheduled

end Nachos

------------------------------------
-- One Step
------------------------------------

namespace Nachos

namespace Kernel

/-
  Some threads leave the front of the ready list, others join
  at its end.  The processor goes to the one that left.
-/
structure Turn
    (gone : List Nat)
    (k k' : Kernel) : Prop where
  ready : k.readyList <+: gone ++ k'.readyList
  current :
    (gone = [] ∧ k'.currentThread = k.currentThread) ∨
      gone = [k'.currentThread]

namespace Turn

variable {k k' : Kernel}

theorem of_eq
    (hReady : k'.readyList = k.readyList)
    (hCurrent : k'.currentThread = k.currentThread) :
    Turn [] k k' where
  ready := ⟨[], by rw [List.append_nil, hReady]; rfl⟩
  current := Or.inl ⟨rfl, hCurrent⟩

theorem of_joins
    {more : List Nat}
    (hReady : k'.readyList = k.readyList ++ more)
    (hCurrent : k'.currentThread = k.currentThread) :
    Turn [] k k' where
  ready := ⟨more, by rw [hReady]; rfl⟩
  current := Or.inl ⟨rfl, hCurrent⟩

theorem refl
    (k : Kernel) :
    Turn [] k k :=
  of_eq rfl rfl

/- Nobody leaves in the first part. -/
theorem trans
    {gone : List Nat}
    {k'' : Kernel}
    (hFirst : Turn [] k k')
    (hNext : Turn gone k' k'') :
    Turn gone k k'' where
  ready := hFirst.ready.trans hNext.ready
  current := by
    rcases hFirst.current with ⟨_, hSame⟩ | hNot
    · rw [← hSame]
      exact hNext.current
    · cases hNot

theorem of_v
    {sem : Nat}
    (hRun : k.v sem = some k') :
    Turn [] k k' := by
  rcases Option.bind_eq_some_iff.mp hRun with
    ⟨value, _, hRest⟩
  split at hRest
  · cases hRest
    exact of_eq rfl rfl
  · cases hRest
    exact of_joins rfl rfl

theorem of_take
    {sem : Nat}
    (hRun : k.take sem = some k') :
    Turn [] k k' := by
  rcases Option.bind_eq_some_iff.mp hRun with
    ⟨value, _, hRest⟩
  cases hRest
  exact of_eq rfl rfl

theorem of_afterSwitch
    (hRun : k.afterSwitch = some k') :
    Turn [] k k' := by
  unfold afterSwitch at hRun
  split at hRun
  · cases hRun
    exact of_eq rfl rfl
  · rename_i t _
    rcases Option.bind_eq_some_iff.mp hRun with
      ⟨k₁, hDelete, hEq⟩
    cases hEq
    unfold delete at hDelete
    split at hDelete
    · rcases Option.bind_eq_some_iff.mp hDelete with
        ⟨threadIDs, _, hEq⟩
      cases hEq
      exact of_eq rfl rfl
    · cases hDelete

theorem of_run
    {next : Nat}
    {readyList : List Nat}
    (hReady : k.readyList = next :: readyList) :
    Turn [next] k
      ({ k with readyList := readyList }.run next) where
  ready := by
    rw [hReady]
    exact List.prefix_refl _
  current := Or.inr rfl

/- A thread that yields joins behind all others. -/
theorem of_yield
    (k : Kernel)
    (old : IntStatus) :
    Turn (k.readyList.take 1) k (k.yield old) := by
  unfold yield
  dsimp only
  split
  · rename_i hNone
    have hReady : k.readyList = [] := hNone
    rw [hReady]
    exact of_eq rfl rfl
  · rename_i next readyList hSome
    have hReady : k.readyList = next :: readyList := hSome
    rw [hReady]
    refine ⟨?_, Or.inr rfl⟩
    rw [hReady]
    exact ⟨[k.currentThread], rfl⟩

end Turn

end Kernel

namespace Sim

open Kernel (Turn)

variable {H : Type}
variable
  {body : H → Interrupt H → Kernel → List (HandlerCall H Nat)}
variable {s t : Sim H Kernel}

/- Handlers make threads ready and do not switch. -/
theorem stable_turn
    (k : Kernel) :
    Stable (kernelDevice body) fun s =>
      Turn [] k s.rest := by
  refine Stable.of_rest (fun _ hTurn => hTurn) ?_
  intro k₁ sem k₂ hTurn hRun
  simp only [kernelDevice] at hRun
  split at hRun
  · exact hTurn.trans (Turn.of_v hRun)
  · cases hRun

theorem turn_setLevel
    {now : IntStatus}
    (hRun : s.setLevel now = some t) :
    Turn [] s.rest t.rest := by
  rcases Option.bind_eq_some_iff.mp hRun with
    ⟨⟨tick, i⟩, _, hRest⟩
  dsimp only at hRest
  split at hRest
  · cases hRest
    exact Turn.of_eq rfl rfl
  · cases hRest
    exact Turn.refl _

theorem turn_sleepLoop
    (hRun : s.sleepLoop (kernelDevice body) = some t) :
    Turn (s.rest.readyList.take 1) s.rest t.rest := by
  unfold sleepLoop at hRun
  split at hRun
  · rename_i next readyList hReady
    cases hRun
    rw [hReady]
    exact Turn.of_run hReady
  · rename_i hReady
    rw [hReady]
    rcases Option.bind_eq_some_iff.mp hRun with
      ⟨⟨fired, u⟩, hIdle, hRest⟩
    have hTurn : Turn [] s.rest u.rest :=
      (stable_turn s.rest).steady.idle (Turn.refl _) hIdle
    dsimp only at hRest
    split at hRest
    · cases hRest
      exact hTurn
    · cases hRest
      exact hTurn.trans (Turn.of_eq rfl rfl)

theorem turn_pLoop
    {sem : Nat}
    (hRun : s.pLoop sem = some t) :
    Turn [] s.rest t.rest := by
  simp only [pLoop, enterSleep] at hRun
  split at hRun
  · split at hRun
    · split at hRun
      · cases hRun
        exact Turn.of_eq rfl rfl
      · cases hRun
    · rcases Option.bind_eq_some_iff.mp hRun with
        ⟨k', hTake, hEq⟩
      cases hEq
      exact Turn.of_take hTake
  · cases hRun

/- Only `Yield` gives up the processor in a frame. -/
theorem turn_resume
    {frame : Frame}
    (hRun : s.resume (kernelDevice body) frame = some t) :
    Turn (frame.dispatches s.rest.readyList) s.rest
      t.rest := by
  cases frame with
  | setLevel now => exact turn_setLevel hRun
  | oneTick =>
      rcases Option.bind_eq_some_iff.mp hRun with
        ⟨⟨yield, u⟩, hTick, hRest⟩
      have hTurn : Turn [] s.rest u.rest :=
        (stable_turn s.rest).steady.oneTick (Turn.refl _)
          hTick
      cases yield with
      | some old =>
          cases hRest
          exact hTurn.trans (Turn.of_eq rfl rfl)
      | none =>
          cases hRest
          exact hTurn
  | yield =>
      cases hRun
      exact Turn.of_yield _ _
  | restoreStatus old =>
      cases hRun
      exact Turn.refl _
  | afterSwitch =>
      rcases Option.bind_eq_some_iff.mp hRun with
        ⟨k', hAfter, hEq⟩
      cases hEq
      exact Turn.of_afterSwitch hAfter
  | pLoop sem => exact turn_pLoop hRun

/- Whom a thread dispatches is said by its next frame. -/
theorem dispatches_of_frames
    {k : Kernel}
    {frame : Frame}
    {frames : List Frame}
    (hSleep : ¬ k.sleeping = true)
    (hFrames :
      (k.thread k.currentThread).frames = frame :: frames) :
    k.dispatches = frame.dispatches k.readyList := by
  rw [Kernel.dispatches, if_neg hSleep, hFrames]

theorem turn_advance
    (hRun : s.advance (kernelDevice body) = some t) :
    Turn s.rest.dispatches s.rest t.rest := by
  unfold advance at hRun
  split at hRun
  · cases hRun
  split at hRun
  · rename_i hSleep
    rw [Kernel.dispatches, if_pos hSleep]
    exact turn_sleepLoop hRun
  rename_i hSleep
  split at hRun
  · cases hRun
  · rename_i frame frames hFrames
    have hPop : Turn [] s.rest (s.mapRest fun k =>
        k.setFrames k.currentThread frames).rest :=
      Turn.of_eq rfl rfl
    rw [dispatches_of_frames hSleep hFrames]
    exact hPop.trans (turn_resume hRun)

/- A call never switches to another thread by itself. -/
theorem turn_call
    {c : KernelCall H}
    (hRun : s.call c = some t) :
    Turn [] s.rest t.rest := by
  cases c with
  | newThread =>
      cases hRun
      exact Turn.of_eq rfl rfl
  | newSemaphore initialValue =>
      cases hRun
      exact Turn.of_eq rfl rfl
  | fork u =>
      cases hRun
      exact Turn.of_joins rfl rfl
  | yield =>
      cases hRun
      exact Turn.of_eq rfl rfl
  | sleep =>
      simp only [call, enterSleep] at hRun
      split at hRun
      · cases hRun
        exact Turn.of_eq rfl rfl
      · cases hRun
  | finish =>
      simp only [call, enterSleep] at hRun
      split at hRun
      · cases hRun
        exact Turn.of_eq rfl rfl
      · cases hRun
  | p sem =>
      cases hRun
      exact Turn.of_eq rfl rfl
  | v sem =>
      rcases Option.bind_eq_some_iff.mp hRun with
        ⟨k', hV, hEq⟩
      cases hEq
      exact (Turn.of_v hV).trans (Turn.of_eq rfl rfl)
  | setLevel now => exact turn_setLevel hRun
  | oneTick =>
      cases hRun
      exact Turn.of_eq rfl rfl
  | setStatus status =>
      cases hRun
      exact Turn.refl _
  | schedule handler fromNow type =>
      rcases Option.bind_eq_some_iff.mp hRun with
        ⟨i, _, hEq⟩
      cases hEq
      exact Turn.refl _

end Sim

end Nachos

------------------------------------
-- Runs
------------------------------------

namespace Nachos

namespace Scheduled

open Kernel (Turn)

variable {H : Type}
variable
  {body : H → Interrupt H → Kernel → List (HandlerCall H Nat)}
variable {mayCall : Kernel → Sim.KernelCall H → Prop}
variable {s t : Scheduled H}

/- What one step does, with what it adds to the log. -/
theorem turn_step
    {action : Sim.KernelAction H}
    (hRun :
      (scheduler (kernelDevice body) mayCall).step s action =
        some t) :
    ∃ gone, t.log = s.log ++ gone ∧
      Turn gone s.sim.rest t.sim.rest := by
  rcases Option.map_eq_some_iff.mp hRun with
    ⟨sim, hStep, rfl⟩
  refine ⟨_, rfl, ?_⟩
  cases action with
  | call c => exact Sim.turn_call hStep
  | advance => exact Sim.turn_advance hStep

/- The order of becoming ready only grows at its end. -/
theorem order_of_run
    {actions : List (Sim.KernelAction H)}
    (hRun :
      (scheduler (kernelDevice body) mayCall).Run s actions
        t) :
    s.log <+: t.log ∧ s.order <+: t.order := by
  induction hRun with
  | nil => exact ⟨List.prefix_refl _, List.prefix_refl _⟩
  | snoc _ _ hNext ih =>
      rcases turn_step hNext with ⟨gone, hLog, hTurn⟩
      refine ⟨ih.1.trans ⟨gone, hLog.symm⟩, ih.2.trans ?_⟩
      unfold order
      rw [hLog, List.append_assoc]
      exact (List.prefix_append_right_inj _).mpr hTurn.ready

/- The log ends with the thread that has the processor. -/
theorem last_of_reachable
    (hReach :
      (scheduler (kernelDevice body) mayCall).Reachable s) :
    s.log.getLast? = some s.sim.rest.currentThread := by
  refine hReach.invariant
    (P := fun s =>
      s.log.getLast? = some s.sim.rest.currentThread) ?_ ?_
  · rintro ⟨sim, log⟩ ⟨⟨pending, rfl⟩, rfl⟩
    rfl
  · intro s action t hLast _ hNext
    rcases turn_step hNext with ⟨gone, hLog, hTurn⟩
    rw [hLog]
    rcases hTurn.current with ⟨rfl, hSame⟩ | rfl
    · rw [List.append_nil, hSame]
      exact hLast
    · exact List.getLast?_concat

/-
  A thread in the ready list is dispatched after exactly the
  threads before it.  As long as fewer threads have been
  dispatched it has moved up by their number.
-/
theorem dispatched_in_turn
    {actions : List (Sim.KernelAction H)}
    (hReach :
      (scheduler (kernelDevice body) mayCall).Reachable s)
    (hRun :
      (scheduler (kernelDevice body) mayCall).Run s actions
        t)
    {position u : Nat}
    (hReady : s.sim.rest.readyList[position]? = some u) :
    t.log.getLast? = some t.sim.rest.currentThread ∧
    ∃ recent, t.log = s.log ++ recent ∧
      (recent.length ≤ position →
        recent = s.sim.rest.readyList.take recent.length ∧
        t.sim.rest.readyList[position - recent.length]? =
          some u) ∧
      (position < recent.length →
        recent.take (position + 1) =
          s.sim.rest.readyList.take (position + 1) ∧
        recent[position]? = some u) := by
  rcases order_of_run hRun with ⟨⟨recent, hLog⟩, hOrder⟩
  have hPrefix :
      s.sim.rest.readyList <+:
        recent ++ t.sim.rest.readyList := by
    unfold order at hOrder
    rw [← hLog, List.append_assoc] at hOrder
    exact (List.prefix_append_right_inj _).mp hOrder
  rcases hPrefix with ⟨more, hMore⟩
  have hLt : position < s.sim.rest.readyList.length :=
    (List.getElem?_eq_some_iff.mp hReady).1
  have hThere :
      (recent ++ t.sim.rest.readyList)[position]? =
        some u := by
    rw [← hMore, List.getElem?_append_left hLt]
    exact hReady
  have hTake :
      ∀ n, n ≤ position + 1 → n ≤ recent.length →
        recent.take n = s.sim.rest.readyList.take n := by
    intro n hn hLe
    calc
      recent.take n
        = (recent ++ t.sim.rest.readyList).take n :=
          (List.take_append_of_le_length hLe).symm
      _ = (s.sim.rest.readyList ++ more).take n := by
          rw [hMore]
      _ = s.sim.rest.readyList.take n :=
          List.take_append_of_le_length (hn.trans hLt)
  have hEnd := hRun.invariant
    (fun _ _ _ hBefore hAllowed hNext =>
      hBefore.of_step hAllowed hNext) hReach
  refine ⟨last_of_reachable hEnd, recent, hLog.symm, ?_, ?_⟩
  · intro hFew
    refine ⟨?_, ?_⟩
    · have hAll := hTake recent.length (Nat.le_succ_of_le hFew)
        le_rfl
      rwa [List.take_length] at hAll
    · rwa [List.getElem?_append_right hFew] at hThere
  · intro hMany
    refine ⟨hTake (position + 1) le_rfl hMany, ?_⟩
    rwa [List.getElem?_append_left hMany] at hThere

/- Two threads are ready, and the main thread yields. -/
theorem dispatched_in_turn_second :
    ∃ s t : Scheduled Unit,
      s.sim.rest.readyList = [1, 2] ∧
      ∃ recent, t.log = s.log ++ recent ∧
        recent.length = 2 ∧ recent[1]? = some 2 := by
  have hRun : ((scheduler Sim.quietDevice
      fun _ _ => True).attempt ⟨Sim.quiet, [0]⟩
      [.advance, .advance, .call .newThread,
        .call .newThread, .call (.fork 1), .advance, .advance,
        .call (.fork 2), .advance, .advance]).any (fun s =>
          s.sim.rest.readyList = [1, 2] ∧ s.log = [0] ∧
          ((scheduler Sim.quietDevice
            fun _ _ => True).attempt s
            [.call .yield, .advance, .advance, .advance,
              .call .finish, .advance]).any (fun t =>
                t.log = [0, 1, 2])) = true := by
    decide +kernel
  rcases (Option.any_eq_true _ _).mp hRun with
    ⟨s, hAttempt, hState⟩
  rw [decide_eq_true_eq] at hState
  rcases hState with ⟨hReady, hLog, hAfter⟩
  rcases (Option.any_eq_true _ _).mp hAfter with
    ⟨t, hMore, hEnd⟩
  rw [decide_eq_true_eq] at hEnd
  have hStart : (scheduler Sim.quietDevice
      fun _ _ => True).Reachable ⟨Sim.quiet, [0]⟩ :=
    .of_init ⟨⟨[], rfl⟩, rfl⟩
  have hReach := hStart.of_attempt hAttempt
  have hSecond : s.sim.rest.readyList[1]? = some 2 := by
    rw [hReady]
    rfl
  rcases dispatched_in_turn hReach
      (Transition.System.Run.of_attempt (.nil s) hMore)
      hSecond with
    ⟨_, recent, hRecent, _, hThen⟩
  have hLength : recent.length = 2 := by
    have hSizes := congrArg List.length hRecent
    rw [hEnd, hLog] at hSizes
    simp only [List.length_cons, List.length_append,
      List.length_nil] at hSizes
    omega
  exact ⟨s, t, hReady, recent, hRecent, hLength,
    (hThen (by omega)).2⟩

end Scheduled

end Nachos
