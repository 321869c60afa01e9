import Nachos.Lib.CInt
import Nachos.Lib.Exclusive
import Nachos.Lib.Transition
import Nachos.Machine.Disk

/-
  Threads that use the synchronous disk.

  Every thread goes through `ReadSector` and `WriteSector` in
  steps: it acquires the lock, makes its request, waits for
  the semaphore and releases the lock.  Threads, the clock
  and disk interrupts take steps in any order.

  Locks are not implemented, so requests can overlap and fail
  an assertion of the disk.  They do not if a thread enters
  only while no other thread is inside.

  Main declarations:
    * `DiskService`
    * `DiskService.system`
    * `DiskService.Phase.step`
    * `DiskService.serialised_of_reachable`
    * `DiskService.requests_overlap`
-/

------------------------------------
-- Calls of the Synchronous Disk
------------------------------------

namespace Nachos

/- A lock has no state, and its operations do nothing. -/
structure Lock where
  deriving DecidableEq

def Lock.acquire
    (lock : Lock) :
    Lock :=
  lock

def Lock.release
    (lock : Lock) :
    Lock :=
  lock

/- A call of `ReadSector` or `WriteSector`. -/
inductive SectorCall where
  | read (sectorNumber : Int)
  | write (sectorNumber : Int) (data : Sector)

def SectorCall.sectorNumber :
    SectorCall → Int
| .read sectorNumber => sectorNumber
| .write sectorNumber _ => sectorNumber

def SectorCall.InRange
    (call : SectorCall) : Prop :=
  0 ≤ call.sectorNumber ∧ call.sectorNumber < NumSectors

instance
    (call : SectorCall) :
    Decidable call.InRange :=
  inferInstanceAs (Decidable (_ ∧ _))

/-
  Where a thread is: outside of the calls, behind `Acquire`,
  in `P` after its request, or behind `P`.  Requests are
  numbered in their order.
-/
inductive CallStage where
  | outside
  | acquired (call : SectorCall)
  | waiting (request : Nat)
  | served (request : Nat)

/- An interrupt that tells that a request is done. -/
structure DiskDone where
  request : Nat
  when : Int
  deriving DecidableEq

/-
  The last two fields are history: the number of requests,
  and the requests whose interrupts have occurred.
-/
structure DiskService where
  drive : DiskDrive
  lock : Lock
  semaphore : Int
  pending : List DiskDone
  totalTicks : Int
  stage : Nat → CallStage
  buffer : Nat → Sector
  issued : Nat
  completed : List Nat

namespace DiskService

def create
    (sectors : Disk)
    (buffer : Nat → Sector)
    (totalTicks : Int) :
    DiskService where
  drive := .create sectors
  lock := {}
  semaphore := 0
  pending := []
  totalTicks := totalTicks
  stage := fun _ => .outside
  buffer := buffer
  issued := 0
  completed := []

def setStage
    (s : DiskService)
    (t : Nat)
    (stage : CallStage) :
    DiskService :=
  { s with stage := Function.update s.stage t stage }

/- A thread calls `ReadSector` or `WriteSector`. -/
def enter
    (s : DiskService)
    (t : Nat)
    (call : SectorCall) :
    DiskService :=
  { s.setStage t (.acquired call) with
    lock := s.lock.acquire }

/- The interrupt of a request is scheduled. -/
def requested
    (s : DiskService)
    (t : Nat)
    (drive : DiskDrive)
    (ticks : Int)
    (data : Sector) :
    DiskService :=
  { s.setStage t (.waiting s.issued) with
    drive := drive
    pending :=
      s.pending ++ [⟨s.issued, s.totalTicks + ticks⟩]
    buffer := Function.update s.buffer t data
    issued := s.issued + 1 }

def request
    (s : DiskService)
    (t : Nat) :
    SectorCall → Option DiskService
| .read sectorNumber => do
    let (data, drive, ticks) ←
      s.drive.readRequest s.totalTicks sectorNumber
    some (s.requested t drive ticks data)
| .write sectorNumber data => do
    let (drive, ticks) ←
      s.drive.writeRequest s.totalTicks sectorNumber data
    some (s.requested t drive ticks data)

/- Wait for the interrupt. -/
def p
    (s : DiskService)
    (t request : Nat) :
    Option DiskService :=
  if s.semaphore = 0 then
    some s
  else do
    let value ← CInt.checked (s.semaphore - 1)
    some
      { s.setStage t (.served request) with
        semaphore := value }

/- The call returns. -/
def leave
    (s : DiskService)
    (t : Nat) :
    DiskService :=
  { s.setStage t .outside with lock := s.lock.release }

/- The next step of a thread that is inside of a call. -/
def advance
    (s : DiskService)
    (t : Nat) :
    Option DiskService :=
  match s.stage t with
  | .outside => none
  | .acquired call => s.request t call
  | .waiting request => s.p t request
  | .served _ => some (s.leave t)

/- The disk interrupt handler: `V`. -/
def requestDone
    (s : DiskService)
    (done : DiskDone) :
    Option DiskService := do
  let value ← CInt.checked (s.semaphore + 1)
  some
    { s with
      drive := s.drive.handleInterrupt
      semaphore := value
      pending := s.pending.erase done
      completed := s.completed ++ [done.request] }

inductive Action where
  | enter (t : Nat) (call : SectorCall)
  | advance (t : Nat)
  | requestDone (done : DiskDone)
  | tick (ticks : Nat)

def step
    (s : DiskService) :
    Action → Option DiskService
| .enter t call => some (s.enter t call)
| .advance t => s.advance t
| .requestDone done => s.requestDone done
| .tick ticks =>
    some { s with totalTicks := s.totalTicks + ticks }

/-
  Calls are made on sectors of the disk, if they may be, and
  interrupts occur when they are due.
-/
def Allowed
    (mayEnter : DiskService → Prop)
    (s : DiskService) :
    Action → Prop
| .enter t call =>
    s.stage t = .outside ∧ call.InRange ∧ mayEnter s
| .requestDone done =>
    done ∈ s.pending ∧ done.when ≤ s.totalTicks
| _ => True

def system
    (mayEnter : DiskService → Prop) :
    Transition.System DiskService Action where
  init := fun s =>
    ∃ sectors buffer totalTicks,
      s = create sectors buffer totalTicks
  allowed := Allowed mayEnter
  step := step

end DiskService

end Nachos

------------------------------------
-- One Call at a Time
------------------------------------

namespace Nachos

namespace DiskService

variable {t : Nat}

/- No thread is inside of a call. -/
def Vacant
    (s : DiskService) : Prop :=
  ∀ t, s.stage t = .outside

/- No other thread is inside of a call. -/
def Alone
    (s : DiskService)
    (t : Nat) : Prop :=
  ∀ u, u ≠ t → s.stage u = .outside

/- No request is in progress or still to be waited for. -/
def Quiet
    (s : DiskService) : Prop :=
  s.pending = [] ∧ s.drive.active = false ∧ s.semaphore = 0

/- The disk fits how far the only call has come. -/
def Fits
    (s : DiskService) :
    CallStage → Prop
| .outside => s.Quiet
| .acquired call => call.InRange ∧ s.Quiet
| .waiting request =>
    (∃ when, s.pending = [⟨request, when⟩] ∧
      s.semaphore = 0) ∨
    (s.pending = [] ∧ s.drive.active = false ∧
      s.semaphore = 1 ∧ request ∈ s.completed)
| .served request => s.Quiet ∧ request ∈ s.completed

/- At most one thread is inside of a call. -/
def Phase
    (s : DiskService) : Prop :=
  ∃ t, s.Alone t ∧ s.Fits (s.stage t)

variable {s s' : DiskService}

/- The call of a thread that is inside is the only one. -/
theorem Phase.inside
    {stage : CallStage}
    (hPhase : s.Phase)
    (hStage : s.stage t = stage)
    (hInside : stage ≠ .outside) :
    s.Alone t ∧ s.Fits stage :=
  Exclusive.Only.inside hPhase hStage hInside

/- The thread whose call is the only one takes a step. -/
theorem Phase.of_move
    {stage : CallStage}
    (hAlone : s.Alone t)
    (hStage : s'.stage = Function.update s.stage t stage)
    (hFits : s'.Fits stage) :
    s'.Phase := by
  have hOnly : Exclusive.Only .outside
      (Function.update s.stage t stage) s'.Fits :=
    Exclusive.Alone.only_update hAlone hFits
  rw [← hStage] at hOnly
  exact hOnly

/- A request makes an idle disk active. -/
theorem exists_request
    {call : SectorCall}
    (t : Nat)
    (hRange : call.InRange)
    (hActive : s.drive.active = false) :
    ∃ drive ticks data, drive.active = true ∧
      s.request t call =
        some (s.requested t drive ticks data) := by
  cases call with
  | read sectorNumber =>
      have hSector :
          0 ≤ sectorNumber ∧ sectorNumber < NumSectors :=
        hRange
      simp only [request, DiskDrive.readRequest, hActive,
        SynchDisk.readSector, dif_pos hSector, if_true]
      exact ⟨_, _, _, rfl, rfl⟩
  | write sectorNumber data =>
      have hSector :
          0 ≤ sectorNumber ∧ sectorNumber < NumSectors :=
        hRange
      simp only [request, DiskDrive.writeRequest, hActive,
        SynchDisk.writeSector, dif_pos hSector, if_true]
      exact ⟨_, _, _, rfl, rfl⟩

theorem Phase.enter
    {call : SectorCall}
    (hPhase : s.Phase)
    (hRange : call.InRange)
    (hVacant : s.Vacant) :
    (s.enter t call).Phase := by
  have hAlone : s.Alone t := Exclusive.Vacant.alone hVacant t
  have hQuiet : s.Fits .outside :=
    Exclusive.Only.of_vacant hPhase hVacant
  exact Phase.of_move hAlone rfl ⟨hRange, hQuiet⟩

theorem Phase.advance
    (hPhase : s.Phase)
    (hRun : s.advance t = some s') :
    s'.Phase := by
  have hInside : s.stage t ≠ .outside := by
    intro hOutside
    unfold DiskService.advance at hRun
    rw [hOutside] at hRun
    cases hRun
  rcases hPhase.inside rfl hInside with ⟨hAlone, hFits⟩
  unfold DiskService.advance at hRun
  split at hRun
  · cases hRun
  · rename_i call hStage
    rw [hStage] at hFits
    rcases hFits with ⟨hRange, hPending, hActive, hSem⟩
    rcases exists_request t hRange hActive with
      ⟨drive, ticks, data, _, hRequest⟩
    have hEq := Option.some.inj (hRequest.symm.trans hRun)
    subst hEq
    refine Phase.of_move hAlone rfl
      (Or.inl ⟨s.totalTicks + ticks, ?_, hSem⟩)
    show s.pending ++ _ = _
    rw [hPending, List.nil_append]
  · rename_i request hStage
    unfold p at hRun
    split at hRun
    · cases hRun
      exact hPhase
    · rename_i hPositive
      rcases Option.bind_eq_some_iff.mp hRun with
        ⟨value, hValue, hEq⟩
      cases hEq
      rw [hStage] at hFits
      rcases hFits with
        ⟨_, _, hZero⟩ | ⟨hPending, hActive, hOne, hDone⟩
      · exact absurd hZero hPositive
      · have hZero := CInt.eq_of_checked hValue
        rw [hOne] at hZero
        exact Phase.of_move hAlone rfl
          ⟨⟨hPending, hActive, hZero⟩, hDone⟩
  · rename_i request hStage
    cases hRun
    rw [hStage] at hFits
    exact Phase.of_move hAlone rfl hFits.1

theorem Phase.requestDone
    {done : DiskDone}
    (hPhase : s.Phase)
    (hMem : done ∈ s.pending)
    (hRun : s.requestDone done = some s') :
    s'.Phase := by
  rcases hPhase with ⟨t, hAlone, hFits⟩
  have hSome : s.pending ≠ [] := List.ne_nil_of_mem hMem
  rcases Option.bind_eq_some_iff.mp hRun with
    ⟨value, hValue, hEq⟩
  cases hEq
  refine ⟨t, hAlone, ?_⟩
  show Fits _ (s.stage t)
  cases hStage : s.stage t with
  | outside =>
      rw [hStage] at hFits
      exact absurd hFits.1 hSome
  | acquired call =>
      rw [hStage] at hFits
      exact absurd hFits.2.1 hSome
  | served request =>
      rw [hStage] at hFits
      exact absurd hFits.1.1 hSome
  | waiting request =>
      rw [hStage] at hFits
      rcases hFits with
        ⟨when, hPending, hZero⟩ | ⟨hPending, _⟩
      · rw [hPending, List.mem_singleton] at hMem
        subst hMem
        have hOne := CInt.eq_of_checked hValue
        rw [hZero] at hOne
        refine Or.inr ⟨?_, rfl, hOne, ?_⟩
        · show s.pending.erase _ = []
          rw [hPending]
          simp
        · exact List.mem_append_right _ List.mem_cons_self
      · exact absurd hPending hSome

theorem Phase.step
    {a : Action}
    (hPhase : s.Phase)
    (hAllowed : Allowed Vacant s a)
    (hRun : s.step a = some s') :
    s'.Phase := by
  cases a with
  | enter t call =>
      cases hRun
      exact hPhase.enter hAllowed.2.1 hAllowed.2.2
  | advance t => exact hPhase.advance hRun
  | requestDone done =>
      exact hPhase.requestDone hAllowed.1 hRun
  | tick ticks =>
      cases hRun
      rcases hPhase with ⟨t, hAlone, hFits⟩
      refine ⟨t, hAlone, ?_⟩
      cases hStage : s.stage t <;> rw [hStage] at hFits <;>
        exact hFits

end DiskService

end Nachos

------------------------------------
-- Serialised Requests
------------------------------------

namespace Nachos

namespace DiskService

/-
  A thread that is about to make its request finds an idle
  disk, so that the request succeeds; and a thread behind `P`
  has seen the interrupt of its own request.
-/
structure Serialised
    (s : DiskService) : Prop where
  request :
    ∀ t call, s.stage t = .acquired call →
      s.drive.active = false ∧ ∃ s', s.advance t = some s'
  done :
    ∀ t request, s.stage t = .served request →
      request ∈ s.completed

variable {s : DiskService}

theorem Phase.serialised
    (hPhase : s.Phase) :
    s.Serialised := by
  constructor
  · intro t call hStage
    have hFits :=
      (hPhase.inside hStage CallStage.noConfusion).2
    rcases hFits with ⟨hRange, _, hActive, _⟩
    refine ⟨hActive, ?_⟩
    rcases exists_request t hRange hActive with
      ⟨drive, ticks, data, _, hRequest⟩
    unfold DiskService.advance
    rw [hStage]
    exact ⟨_, hRequest⟩
  · intro t request hStage
    have hFits :=
      (hPhase.inside hStage CallStage.noConfusion).2
    exact hFits.2

/- Threads enter only while no thread is inside. -/
theorem serialised_of_reachable
    (hReach : (system Vacant).Reachable s) :
    s.Serialised := by
  have hPhase : s.Phase := by
    refine hReach.invariant ?_ ?_
    · rintro _ ⟨sectors, buffer, totalTicks, rfl⟩
      exact ⟨0, fun _ _ => rfl, rfl, rfl, rfl⟩
    · intro s a t hs hAllowed hStep
      exact hs.step hAllowed hStep
  exact hPhase.serialised

/- A disk that nobody has used. -/
def blank :
    DiskService :=
  create (fun _ _ => 0) (fun _ _ => 0) 0

/-
  A thread reads a sector, and after it has returned a second
  thread enters.
-/
theorem serialised_after_request :
    ∃ s, (system Vacant).Reachable s ∧
      s.completed = [0] ∧ s.stage 0 = .outside ∧
      s.stage 1 = .acquired (.read 1) ∧
      s.Serialised := by
  have hStart : (system Vacant).Reachable blank :=
    .of_init ⟨_, _, _, rfl⟩
  have hEnter : (system Vacant).allowed blank
      (.enter 0 (.read 0)) := ⟨rfl, by decide, fun _ => rfl⟩
  rcases exists_request (s := blank.enter 0 (.read 0)) 0
    (by decide : (SectorCall.read 0).InRange) rfl with
    ⟨drive, ticks, data, _, hRequest⟩
  have hWaiting := ((hStart.of_step hEnter rfl).of_step
    (a := Action.advance 0) trivial hRequest).of_step
    (a := Action.tick ticks.toNat) trivial rfl
  have hDue : ticks ≤ 0 + (ticks.toNat : Int) := by
    omega
  have hDone := hWaiting.of_step
    (a := Action.requestDone ⟨0, 0 + ticks⟩)
    ⟨List.mem_singleton_self _, (Int.zero_add ticks).le.trans
      hDue⟩ rfl
  have hLeft := (hDone.of_step
    (a := Action.advance 0) trivial rfl).of_step
    (a := Action.advance 0) trivial rfl
  have hSecond := hLeft.of_step
    (a := Action.enter 1 (.read 1))
    ⟨rfl, by decide, fun t => by cases t <;> rfl⟩ rfl
  exact ⟨_, hSecond, rfl, rfl, rfl,
    serialised_of_reachable hSecond⟩

/-
  A thread waits for its request in `P`, and a second thread
  makes a request: the lock did not keep it out.
-/
theorem requests_overlap :
    ∃ s, (system fun _ => True).Reachable s ∧
      s.stage 0 = .waiting 0 ∧
      s.stage 1 = .acquired (.read 1) ∧
      s.drive.active = true ∧ s.advance 1 = none ∧
      ¬ s.Serialised := by
  let entered := blank.enter 0 (.read 0)
  rcases exists_request (s := entered) 0
    (by decide : (SectorCall.read 0).InRange) rfl with
    ⟨drive, ticks, data, hActive, hRequest⟩
  let waiting := entered.requested 0 drive ticks data
  have hStart : (system fun _ => True).Reachable blank :=
    .of_init ⟨_, _, _, rfl⟩
  have hFirst : (system fun _ => True).allowed blank
      (.enter 0 (.read 0)) := ⟨rfl, by decide, trivial⟩
  have hSecond : (system fun _ => True).allowed entered
      (.advance 0) := trivial
  have hThird : (system fun _ => True).allowed waiting
      (.enter 1 (.read 1)) := ⟨rfl, by decide, trivial⟩
  have hReach := ((hStart.of_step hFirst rfl).of_step hSecond
    hRequest).of_step hThird rfl
  have hFails :
      (waiting.enter 1 (.read 1)).advance 1 = none := by
    show (waiting.enter 1 (.read 1)).request 1 (.read 1) = none
    have hBusy :
        (waiting.enter 1 (.read 1)).drive.active = true :=
      hActive
    simp [request, DiskDrive.readRequest, hBusy]
  refine ⟨waiting.enter 1 (.read 1), hReach, rfl, rfl, hActive,
    hFails, ?_⟩
  intro hSerialised
  have hIdle := (hSerialised.request 1 (.read 1) rfl).1
  exact Bool.noConfusion (hIdle.symm.trans hActive)

end DiskService

end Nachos
