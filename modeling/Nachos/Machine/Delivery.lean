import Nachos.Machine.Stable

/-
  Interrupts are delivered in the order of their due times.

  Main declarations:
    * `Sim.due`
    * `Sim.drain_stable`
    * `Sim.system`
    * `Sim.Steady.request`
    * `Sim.delivery_of_reachable`
-/

------------------------------------
-- The Delivery Invariant
------------------------------------

namespace Nachos

variable {H : Type}

namespace Interrupt

/-
  Every scheduled interrupt has fired or is pending, pending
  ones are sorted, and what has fired was due and came before
  everything that is pending.
-/
structure Delivered
    (i : Interrupt H) : Prop where
  sorted : PriorityList.Sorted (·.when) i.pending
  accounted :
    (i.fired.map Prod.fst ++ i.pending).Perm i.scheduled
  serials :
    i.scheduled.map (·.serial) =
      List.range i.scheduled.length
  due : ∀ f ∈ i.fired, f.1.when ≤ f.2
  ordered :
    i.fired.Pairwise fun f g => f.1.when ≤ g.1.when
  before_pending :
    ∀ f ∈ i.fired, ∀ p ∈ i.pending, f.1.when ≤ p.when
  before_clock :
    ∀ f ∈ i.fired, f.1.when ≤ i.stats.totalTicks

theorem delivered_create :
    (create : Interrupt H).Delivered := by
  constructor <;> simp [create, PriorityList.Sorted]

variable {i : Interrupt H}

/- No interrupt was scheduled twice. -/
theorem Delivered.nodup
    (hInv : i.Delivered) :
    i.scheduled.Nodup := by
  have hNodup := List.nodup_range (n := i.scheduled.length)
  rw [← hInv.serials] at hNodup
  exact hNodup.of_map _

/- Levels, flags and a later clock do not matter. -/
theorem Delivered.of_eq
    (hInv : i.Delivered)
    {j : Interrupt H}
    (hPending : j.pending = i.pending)
    (hScheduled : j.scheduled = i.scheduled)
    (hFired : j.fired = i.fired)
    (hClock : i.stats.totalTicks ≤ j.stats.totalTicks) :
    j.Delivered := by
  constructor
  · rw [hPending]
    exact hInv.sorted
  · rw [hPending, hScheduled, hFired]
    exact hInv.accounted
  · rw [hScheduled]
    exact hInv.serials
  · rw [hFired]
    exact hInv.due
  · rw [hFired]
    exact hInv.ordered
  · rw [hPending, hFired]
    exact hInv.before_pending
  · rw [hFired]
    intro f hf
    exact (hInv.before_clock f hf).trans hClock

theorem Delivered.advance
    (hInv : i.Delivered) :
    i.advance.Delivered := by
  rcases i.advance_eq with ⟨stats, hLater, hEq⟩
  rw [hEq]
  exact hInv.of_eq rfl rfl rfl (le_of_lt hLater)

/- A new interrupt occurs after everything that fired. -/
theorem Delivered.schedule
    (hInv : i.Delivered)
    {handler : H}
    {fromNow : Int}
    {type : IntType}
    {j : Interrupt H}
    (hRun : i.schedule handler fromNow type = some j) :
    j.Delivered := by
  rcases schedule_cases hRun with
    ⟨hLater, toOccur, _, hWhen, _, hSerial, rfl⟩
  constructor
  · exact PriorityList.sorted_insert _ hInv.sorted
  · refine ((PriorityList.perm_insert _ _
      _).append_left _).trans ?_
    exact List.perm_middle.trans
      ((List.perm_append_singleton _ _).symm.trans
        (hInv.accounted.append_right _))
  · simp only [List.map_append, hInv.serials,
      List.map_cons, List.map_nil, List.length_append,
      List.length_singleton, List.range_succ, hSerial]
  · exact hInv.due
  · exact hInv.ordered
  · intro f hf p hp
    rcases PriorityList.mem_insert.mp hp with rfl | hp
    · have hClock := hInv.before_clock f hf
      omega
    · exact hInv.before_pending f hf p hp
  · exact hInv.before_clock

/- Taking the first interrupt out and putting it back. -/
theorem Delivered.putBack
    (hInv : i.Delivered)
    {toOccur : PendingInterrupt H}
    {pending : List (PendingInterrupt H)}
    (hPending : i.pending = toOccur :: pending) :
    ({ i with
      pending :=
        PriorityList.insert (·.when) toOccur
          pending } : Interrupt H).Delivered := by
  have hPerm := PriorityList.perm_insert
    (fun p : PendingInterrupt H => p.when) toOccur pending
  rw [← hPending] at hPerm
  have hSorted := hInv.sorted
  rw [hPending] at hSorted
  constructor
  · exact PriorityList.sorted_insert _
      (List.pairwise_cons.mp hSorted).2
  · exact (hPerm.append_left _).trans hInv.accounted
  · exact hInv.serials
  · exact hInv.due
  · exact hInv.ordered
  · intro f hf p hp
    exact hInv.before_pending f hf p (hPerm.mem_iff.mp hp)
  · exact hInv.before_clock

/- Firing the first interrupt when it is due. -/
theorem Delivered.pop
    (hInv : i.Delivered)
    {toOccur : PendingInterrupt H}
    {pending : List (PendingInterrupt H)}
    (hPending : i.pending = toOccur :: pending)
    (hDue : toOccur.when ≤ i.stats.totalTicks) :
    ({ i with
      pending := pending
      fired :=
        i.fired ++
          [(toOccur,
            i.stats.totalTicks)] } : Interrupt H).Delivered
    := by
  have hMem : toOccur ∈ i.pending := by
    rw [hPending]
    exact List.mem_cons_self
  have hSorted := hInv.sorted
  rw [hPending] at hSorted
  rcases List.pairwise_cons.mp hSorted with ⟨hFirst, hRest⟩
  have hAccounted := hInv.accounted
  rw [hPending] at hAccounted
  constructor
  · exact hRest
  · rw [List.map_append, List.append_assoc]
    exact hAccounted
  · exact hInv.serials
  · intro f hf
    rcases List.mem_append.mp hf with hf | hf
    · exact hInv.due f hf
    · rw [List.mem_singleton.mp hf]
      exact hDue
  · refine List.pairwise_append.mpr
      ⟨hInv.ordered, List.pairwise_singleton _ _, ?_⟩
    intro f hf g hg
    rw [List.mem_singleton.mp hg]
    exact hInv.before_pending f hf toOccur hMem
  · intro f hf p hp
    rcases List.mem_append.mp hf with hf | hf
    · refine hInv.before_pending f hf p ?_
      rw [hPending]
      exact List.mem_cons_of_mem _ hp
    · rw [List.mem_singleton.mp hf]
      exact hFirst p hp
  · intro f hf
    rcases List.mem_append.mp hf with hf | hf
    · exact hInv.before_clock f hf
    · rw [List.mem_singleton.mp hf]
      exact hDue

end Interrupt

end Nachos

------------------------------------
-- Handlers and Loops
------------------------------------

namespace Nachos

variable {H κ ω : Type}

namespace Sim

variable (dev : Device H κ ω)

theorem stable_delivered :
    Stable dev fun s => s.interrupt.Delivered where
  flags := fun _ _ _ _ _ hInv =>
    hInv.of_eq rfl rfl rfl le_rfl
  advance := fun _ hInv => hInv.advance
  advanceTo := fun _ _ hInv hLater =>
    hInv.of_eq rfl rfl rfl hLater
  putBack := fun _ _ _ hInv hPending =>
    hInv.putBack hPending
  enter := fun _ _ _ hInv hPending hDue =>
    (hInv.pop hPending hDue).of_eq rfl rfl rfl le_rfl
  perform := by
    intro s call t hInv hRun
    rcases perform_cases hRun with
      ⟨_, _, _, i, _, hSchedule, rfl⟩ | ⟨_, _, rfl⟩ |
        ⟨_, _, _, _, rfl⟩
    · exact hInv.schedule hSchedule
    · exact hInv.of_eq rfl rfl rfl le_rfl
    · exact hInv

end Sim

end Nachos

------------------------------------
-- The Loops End
------------------------------------

namespace Nachos

variable {H κ ω : Type}

namespace Sim

variable {dev : Device H κ ω}
variable {s t : Sim H κ}

/- Number of pending interrupts that are due. -/
def dueCount
    (s : Sim H κ) :
    Nat :=
  s.interrupt.pending.countP fun p =>
    p.when ≤ s.interrupt.stats.totalTicks

/- The interrupts that are due, in the order of the list. -/
def due
    (s : Sim H κ) :
    List (PendingInterrupt H) :=
  s.interrupt.pending.filter fun p =>
    p.when ≤ s.interrupt.stats.totalTicks

theorem dueCount_eq_length
    (s : Sim H κ) :
    s.dueCount = s.due.length :=
  List.countP_eq_length_filter

/- Calls of handlers make no interrupt due. -/
theorem perform_due
    {call : HandlerCall H ω}
    (hRun : s.perform dev call = some t) :
    t.due = s.due := by
  rcases perform_cases hRun with
    ⟨_, _, _, i, _, hSchedule, rfl⟩ | ⟨_, _, rfl⟩ |
      ⟨_, _, _, _, rfl⟩
  · rcases Interrupt.schedule_cases hSchedule with
      ⟨hLater, toOccur, _, hWhen, _, _, rfl⟩
    apply PriorityList.filter_insert
    apply decide_eq_false
    show ¬ toOccur.when ≤ s.interrupt.stats.totalTicks
    omega
  · rfl
  · rfl

theorem perform_dueCount
    {call : HandlerCall H ω}
    (hRun : s.perform dev call = some t) :
    t.dueCount = s.dueCount := by
  rw [dueCount_eq_length, dueCount_eq_length,
    perform_due hRun]

/- Firing an interrupt takes it from those that are due. -/
theorem checkIfDue_dueCount
    (hRun : s.checkIfDue dev false = some (true, t)) :
    s.dueCount = t.dueCount + 1 := by
  rcases (checkIfDue_cases hRun).2 with
    ⟨_, hFired, _⟩ |
      ⟨toOccur, pending, u, hPending, hClock, hEnd⟩
  · cases hFired
  rcases hClock with rfl | ⟨hClock, _⟩
  · rcases hEnd with ⟨hFired, _⟩ | ⟨_, hDue, hFire⟩
    · cases hFired
    rcases Option.bind_eq_some_iff.mp hFire with
      ⟨v, hFold, hEq⟩
    cases hEq
    have hSame : v.dueCount =
        (u.setPending pending).dueCount :=
      Transition.foldlM_invariant
        (P := fun v => v.dueCount =
          (u.setPending pending).dueCount)
        (fun _ _ _ hInv hCall =>
          (perform_dueCount hCall).trans hInv)
        hFold rfl
    have hFirst : u.dueCount =
        (u.setPending pending).dueCount + 1 := by
      rw [dueCount, hPending, List.countP_cons_of_pos
        (by simpa using hDue)]
      rfl
    rw [hFirst, ← hSame]
    rfl
  · cases hClock

/- Enough rounds for what is due are enough for the loop. -/
theorem drain_succ
    {fuel : Nat}
    {s : Sim H κ}
    (hFuel : s.dueCount < fuel) :
    drain dev (fuel + 1) s = drain dev fuel s := by
  induction fuel generalizing s with
  | zero => omega
  | succ fuel ih =>
      rw [drain, drain]
      cases hCheck : s.checkIfDue dev false with
      | none => rfl
      | some result =>
          rcases result with ⟨fired, u⟩
          cases fired with
          | false => rfl
          | true =>
              have hCount := checkIfDue_dueCount hCheck
              exact ih (by omega)

/- The loop has ended after one round per interrupt. -/
theorem drain_stable
    {s : Sim H κ}
    {fuel : Nat}
    (hFuel : s.rounds ≤ fuel) :
    drain dev fuel s = drain dev s.rounds s := by
  induction fuel, hFuel using Nat.le_induction with
  | base => rfl
  | succ fuel hFuel ih =>
      have hCount : s.dueCount ≤
          s.interrupt.pending.length :=
        List.countP_le_length
      rw [drain_succ (by simp only [rounds] at hFuel; omega),
        ih]

end Sim

end Nachos

------------------------------------
-- Runs
------------------------------------

namespace Nachos

variable {H κ ω : Type}

/-
  What the rest of the machine does with the controller.  A
  context switch asked for by a handler shows up as the
  requests of the threads that run then.
-/
inductive Request (H ω : Type) where
  | schedule (handler : H) (fromNow : Int) (type : IntType)
  | oneTick
  | idle
  | changeLevel (now : IntStatus)
  | setStatus (status : MachineStatus)
  | device (op : ω)

namespace Sim

def request
    (dev : Device H κ ω)
    (s : Sim H κ) :
    Request H ω → Option (Sim H κ)
| .schedule handler fromNow type =>
    s.perform dev (.schedule handler fromNow type)
| .oneTick => (s.oneTick dev).map Prod.snd
| .idle => (s.idle dev).map Prod.snd
| .changeLevel now =>
    some { s with interrupt := s.interrupt.changeLevel now }
| .setStatus status =>
    some
      { s with
        interrupt := { s.interrupt with status := status } }
| .device op => s.perform dev (.device op)

/- Runs from the start of the simulation. -/
def system
    (dev : Device H κ ω) :
    Transition.System (Sim H κ) (Request H ω) where
  init := fun s => s.interrupt = Interrupt.create
  allowed := fun _ _ => True
  step := request dev

variable {dev : Device H κ ω}

/- What a steady property still needs for all requests. -/
theorem Steady.request
    {P : Sim H κ → Prop}
    (hSteady : Steady dev P)
    {s t : Sim H κ}
    {r : Request H ω}
    (hSchedule :
      ∀ handler fromNow type i,
        r = .schedule handler fromNow type →
        s.interrupt.schedule handler fromNow type = some i →
        P ⟨i, s.rest⟩)
    (hDevice :
      ∀ op rest,
        r = .device op →
        dev.exec op s.rest = some rest →
        P ⟨s.interrupt, rest⟩)
    (hStart : P s)
    (hRun : s.request dev r = some t) :
    P t := by
  cases r with
  | schedule handler fromNow type =>
      rcases Option.bind_eq_some_iff.mp hRun with
        ⟨i, hNext, hEq⟩
      cases hEq
      exact hSchedule handler fromNow type i rfl hNext
  | oneTick =>
      rcases Option.map_eq_some_iff.mp hRun with
        ⟨⟨yield, u⟩, hTick, rfl⟩
      exact hSteady.oneTick hStart hTick
  | idle =>
      rcases Option.map_eq_some_iff.mp hRun with
        ⟨⟨fired, u⟩, hIdle, rfl⟩
      exact hSteady.idle hStart hIdle
  | changeLevel now =>
      cases hRun
      exact hSteady.flags s now s.interrupt.inHandler
        s.interrupt.yieldOnReturn s.interrupt.status hStart
  | setStatus status =>
      cases hRun
      exact hSteady.flags s s.interrupt.level
        s.interrupt.inHandler s.interrupt.yieldOnReturn status
        hStart
  | device op =>
      rcases Option.bind_eq_some_iff.mp hRun with
        ⟨rest, hExec, hEq⟩
      cases hEq
      exact hDevice op rest rfl hExec

theorem request_delivered
    {s t : Sim H κ}
    {r : Request H ω}
    (hInv : s.interrupt.Delivered)
    (hRun : s.request dev r = some t) :
    t.interrupt.Delivered := by
  refine (stable_delivered dev).steady.request ?_ ?_ hInv hRun
  · intro handler fromNow type i _ hSchedule
    exact hInv.schedule hSchedule
  · intro op rest _ _
    exact hInv

/-
  In every run the pending list is sorted, every scheduled
  interrupt has either fired once or is pending, none fired
  before it was due, and they fired in the order of their due
  times.
-/
theorem delivery_of_reachable
    {s : Sim H κ}
    (hReach : (system dev).Reachable s) :
    (s.interrupt.pending.Pairwise fun p q =>
      p.when ≤ q.when) ∧
    (s.interrupt.fired.map Prod.fst ++
      s.interrupt.pending).Perm s.interrupt.scheduled ∧
    s.interrupt.scheduled.Nodup ∧
    (∀ f ∈ s.interrupt.fired, f.1.when ≤ f.2) ∧
    (s.interrupt.fired.map fun f => f.1.when).Pairwise
      (· ≤ ·) := by
  have hInv : s.interrupt.Delivered := by
    refine hReach.invariant
      (P := fun s => s.interrupt.Delivered) ?_ ?_
    · intro s hInit
      rw [show s.interrupt = Interrupt.create from hInit]
      exact Interrupt.delivered_create
    · intro s r t hInv _ hRun
      exact request_delivered hInv hRun
  exact ⟨hInv.sorted, hInv.accounted, hInv.nodup, hInv.due,
    List.pairwise_map.mpr hInv.ordered⟩

/-
  A timer that arms itself again and asks for a context
  switch, among handlers that do nothing.
-/
def rearming : Device Bool Unit Unit where
  delayedLoad := id
  exec := fun _ k => some k
  body := fun timer _ _ =>
    if timer then
      [.schedule true 100 .timer, .yieldOnReturn]
    else
      []

/-
  A timer is scheduled after a disk interrupt but due before
  it, and fires first.
-/
theorem delivery_of_timer_and_disk :
    ∃ s : Sim Bool Unit,
      (system rearming).Reachable s ∧
      s.interrupt.fired.map (fun f => (f.1.serial, f.1.when)) =
        [(1, 10), (0, 15)] ∧
      s.interrupt.pending.map (fun p => p.when) = [110] ∧
      (s.interrupt.fired.map fun f => f.1.when).Pairwise
        (· ≤ ·) := by
  have hStart : (system rearming).Reachable
      ⟨Interrupt.create, ()⟩ :=
    .of_init rfl
  have hDisk := hStart.of_step
    (a := .schedule false 15 .disk) trivial rfl
  have hTimer := hDisk.of_step
    (a := .schedule true 10 .timer) trivial rfl
  have hFirst := hTimer.of_step (a := .oneTick) trivial rfl
  have hSecond := hFirst.of_step (a := .oneTick) trivial rfl
  exact ⟨_, hSecond, rfl, rfl,
    (delivery_of_reachable hSecond).2.2.2.2⟩

end Sim

end Nachos
