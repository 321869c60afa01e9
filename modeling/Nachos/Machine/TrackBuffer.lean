import Nachos.Lib.Transition
import Nachos.Machine.DiskLatency

/-
  What is in the track buffer has passed under the head.

  The arm of the disk is described by itself: it moves when a
  request is made, one track per `SeekTime`, and stays on its
  track between requests.  The drive does not keep where the
  arm was, only the last sector and when the buffer started.

  Main declarations:
    * `DriveLog.system`
    * `DriveLog.Settled`
    * `DiskDrive.trackBuffered_iff`
    * `DriveLog.Settled.start`
    * `DriveLog.track_buffer_sound`
-/

------------------------------------
-- The Arm
------------------------------------

namespace Nachos

/- When the arm was sent off, and to which track. -/
structure ArmMove where
  time : Int
  track : Int

namespace Arm

/- The track of the latest move; at first it is track 0. -/
def lastTrack :
    List ArmMove → Int
| [] => 0
| move :: _ => move.track

/- The track of the arm, or `none` while it is under way. -/
def trackAt :
    List ArmMove → Int → Option Int
| [], _ => some 0
| move :: earlier, t =>
    if t < move.time then
      trackAt earlier t
    else if move.time +
        SeekTime *
          (move.track - lastTrack earlier).natAbs ≤ t then
      some move.track
    else
      none

variable {moves : List ArmMove}
variable {time track t : Int}

theorem trackAt_before
    (hBefore : t < time) :
    trackAt (⟨time, track⟩ :: moves) t = trackAt moves t :=
  if_pos hBefore

theorem trackAt_arrived
    (hArrived :
      time + SeekTime * (track - lastTrack moves).natAbs ≤
        t) :
    trackAt (⟨time, track⟩ :: moves) t = some track := by
  have hLater : ¬ t < time := by
    simp only [SeekTime] at hArrived
    omega
  exact (if_neg hLater).trans (if_pos hArrived)

/- A move to the same track does not move the arm. -/
theorem trackAt_same
    (hSame : lastTrack moves = track)
    (hThere : trackAt moves t = some track) :
    trackAt (⟨time, track⟩ :: moves) t = some track := by
  by_cases hBefore : t < time
  · rw [trackAt_before hBefore]
    exact hThere
  · apply trackAt_arrived
    rw [hSame]
    simp only [SeekTime]
    omega

end Arm

end Nachos

------------------------------------
-- The Test for the Buffer
------------------------------------

namespace Nachos

namespace DiskDrive

variable {d : DiskDrive}
variable {totalTicks newSector : Int}
variable {writing : Bool}

/-
  Since slot `b`, when the buffer started, the sector has
  passed by: a slot with it is over when the head is looked
  for.
-/
theorem trackBuffered_iff
    {b : Int}
    (hTicks : 0 ≤ totalTicks)
    (hLast : 0 ≤ d.lastSector)
    (hNew : 0 ≤ newSector)
    (hStart : 0 ≤ b)
    (hBuffer : d.bufferInit = RotationTime * b)
    (writing : Bool) :
    d.trackBuffered totalTicks newSector writing = true ↔
      writing = false ∧
      trackOf newSector = trackOf d.lastSector ∧
      b + Cyclic.wait SectorsPerTrack b newSector <
        d.arrival totalTicks newSector := by
  have hMul := d.mul_arrival totalTicks newSector
  have hSlots :
      (RotationTime * d.arrival totalTicks newSector -
        RotationTime * b).tdiv RotationTime =
        d.arrival totalTicks newSector - b := by
    rw [← Int.mul_sub]
    exact Int.mul_tdiv_cancel_left _ (by decide)
  have hSlot : (RotationTime * b).tdiv RotationTime = b :=
    Int.mul_tdiv_cancel_left _ (by decide)
  rw [trackBuffered, timeToSeek_eq hTicks hLast hNew]
  simp only [← hMul, hBuffer, hSlots, hSlot]
  rw [moduloDiff_eq hNew hStart, ← travel_eq_zero]
  simp only [Bool.and_eq_true, Bool.not_eq_true',
    beq_iff_eq, decide_eq_true_eq, and_assoc]
  refine and_congr_right fun _ => and_congr_right fun _ => ?_
  omega

/- The slot in which a sector got into the buffer. -/
theorem slot_of_buffered
    {b : Int}
    (hTicks : 0 ≤ totalTicks)
    (hLast : 0 ≤ d.lastSector)
    (hNew : 0 ≤ newSector)
    (hStart : 0 ≤ b)
    (hBuffer : d.bufferInit = RotationTime * b)
    (hBuffered :
      d.trackBuffered totalTicks newSector writing = true) :
    trackOf newSector = trackOf d.lastSector ∧
    ∃ start,
      RotationTime ∣ start ∧
      (start / RotationTime) % SectorsPerTrack =
        newSector % SectorsPerTrack ∧
      d.bufferInit ≤ start ∧
      start + RotationTime ≤
        totalTicks +
          d.computeLatency totalTicks newSector writing := by
  rcases (trackBuffered_iff hTicks hLast hNew hStart hBuffer
    writing).mp hBuffered with ⟨_, hSame, hPassed⟩
  have hFirst := (Cyclic.isLeast_wait
    (by decide : (0 : Int) < SectorsPerTrack) b newSector).1
  have hMul := d.mul_arrival totalTicks newSector
  have hRound := Cyclic.wait_lt
    (by decide : 0 < RotationTime)
    (totalTicks + d.travel newSector) 0
  rw [travel_eq_zero.mpr hSame] at hMul hRound
  refine ⟨hSame, RotationTime *
    (b + Cyclic.wait SectorsPerTrack b newSector),
    Dvd.intro _ rfl, ?_, ?_, ?_⟩
  · rw [Int.mul_ediv_cancel_left _ (by decide)]
    exact hFirst.2
  · rw [hBuffer]
    exact Int.mul_le_mul_of_nonneg_left hFirst.1 (by decide)
  · rw [computeLatency_eq hTicks hLast hNew, hBuffered,
      if_pos rfl]
    simp only [RotationTime] at hMul hRound ⊢
    omega

/- The buffer starts again after a seek. -/
theorem start_eq
    {sectors : Disk}
    (hTicks : 0 ≤ totalTicks)
    (hLast : 0 ≤ d.lastSector)
    (hNew : 0 ≤ newSector) :
    d.start totalTicks newSector writing sectors =
      ({ d with
          sectors := sectors
          active := true
          bufferInit :=
            if d.travel newSector ≠ 0 then
              RotationTime * d.arrival totalTicks newSector
            else
              d.bufferInit
          lastSector := newSector },
        d.computeLatency totalTicks newSector writing) := by
  have hSeek := timeToSeek_eq
    (d := { d with sectors := sectors, active := true })
    hTicks hLast hNew
  rw [start, updateLast, hSeek, mul_arrival]
  rfl

/- A request that seeks is not done before the arm arrives. -/
theorem arrival_le_completion
    (hTicks : 0 ≤ totalTicks)
    (hLast : 0 ≤ d.lastSector)
    (hNew : 0 ≤ newSector)
    (hTravel : d.travel newSector ≠ 0) :
    RotationTime * d.arrival totalTicks newSector ≤
      totalTicks +
        d.computeLatency totalTicks newSector writing := by
  have hPath :
      d.trackBuffered totalTicks newSector writing = false
      := by
    rw [trackBuffered, timeToSeek_eq hTicks hLast hNew]
    simp [hTravel]
  have hWait := Cyclic.wait_nonneg
    (by decide : (0 : Int) < SectorsPerTrack)
    (d.arrival totalTicks newSector) newSector
  rw [computeLatency_eq hTicks hLast hNew, hPath,
    if_neg (by decide)]
  simp only [RotationTime]
  omega

/- Requests that are taken are for sectors of the disk. -/
theorem readRequest_cases
    {data : Sector}
    {started : DiskDrive × Int}
    (hRun :
      d.readRequest totalTicks newSector =
        some (data, started)) :
    0 ≤ newSector ∧
    started = d.start totalTicks newSector false d.sectors
    := by
  unfold readRequest at hRun
  split at hRun
  · rcases Option.bind_eq_some_iff.mp hRun with
      ⟨_, hRead, hEq⟩
    cases hEq
    unfold SynchDisk.readSector at hRead
    split at hRead
    · rename_i hSector
      exact ⟨hSector.1, rfl⟩
    · cases hRead
  · cases hRun

theorem writeRequest_cases
    {data : Sector}
    {started : DiskDrive × Int}
    (hRun :
      d.writeRequest totalTicks newSector data =
        some started) :
    0 ≤ newSector ∧
    ∃ sectors,
      started = d.start totalTicks newSector true sectors
    := by
  unfold writeRequest at hRun
  split at hRun
  · rcases Option.bind_eq_some_iff.mp hRun with
      ⟨sectors, hWrite, hEq⟩
    cases hEq
    unfold SynchDisk.writeSector at hWrite
    split at hWrite
    · rename_i hSector
      exact ⟨hSector.1, sectors, rfl⟩
    · cases hWrite
  · cases hRun

/- The mechanical path is never faster than the buffer. -/
theorem latency_le_writing
    (hTicks : 0 ≤ totalTicks)
    (hLast : 0 ≤ d.lastSector)
    (hNew : 0 ≤ newSector)
    (writing : Bool) :
    d.computeLatency totalTicks newSector writing ≤
      d.computeLatency totalTicks newSector true := by
  have hWriting :=
    rotationTime_le_latency hTicks hLast hNew true
  have hBoth := computeLatency_eq hTicks hLast hNew writing
  have hTrue := computeLatency_eq hTicks hLast hNew true
  rw [trackBuffered_writing] at hTrue
  split at hBoth
  · omega
  · rw [if_neg (by decide)] at hTrue
    omega

end DiskDrive

end Nachos

------------------------------------
-- Runs of Requests
------------------------------------

namespace Nachos

/- The drive, all moves so far, and when the last was done. -/
structure DriveLog where
  drive : DiskDrive
  moves : List ArmMove
  done : Int

/- Requests carry the time at which they are made. -/
inductive DriveAction where
  | read (now sectorNumber : Int)
  | write (now sectorNumber : Int) (data : Sector)
  | interrupt

namespace DriveLog

variable {now sectorNumber : Int}

def create
    (sectors : Disk) :
    DriveLog where
  drive := .create sectors
  moves := []
  done := 0

/- The drive took a request that is done after `ticks`. -/
def record
    (s : DriveLog)
    (now sectorNumber : Int) :
    DiskDrive × Int → DriveLog
| (drive, ticks) =>
    { drive := drive
      moves :=
        ⟨now, DiskDrive.trackOf sectorNumber⟩ :: s.moves
      done := now + ticks }

def step
    (s : DriveLog) :
    DriveAction → Option DriveLog
| .read now sectorNumber => do
    let (_, started) ← s.drive.readRequest now sectorNumber
    some (s.record now sectorNumber started)
| .write now sectorNumber data => do
    let started ← s.drive.writeRequest now sectorNumber data
    some (s.record now sectorNumber started)
| .interrupt =>
    some { s with drive := s.drive.handleInterrupt }

/- No request comes before the last one is done. -/
def system :
    Transition.System DriveLog DriveAction where
  init := fun s => ∃ sectors, s = create sectors
  allowed := fun s a =>
    match a with
    | .read now _ => s.done ≤ now
    | .write now _ _ => s.done ≤ now
    | .interrupt => True
  step := step

/-
  The buffer started at a boundary of sectors, and the arm
  has been on the track of the last sector since then.
-/
structure Settled
    (s : DriveLog) : Prop where
  started : 0 ≤ s.drive.bufferInit
  aligned : RotationTime ∣ s.drive.bufferInit
  past : s.drive.bufferInit ≤ s.done
  inRange : 0 ≤ s.drive.lastSector
  last :
    Arm.lastTrack s.moves =
      DiskDrive.trackOf s.drive.lastSector
  there :
    ∀ t, s.drive.bufferInit ≤ t →
      Arm.trackAt s.moves t =
        some (DiskDrive.trackOf s.drive.lastSector)

variable {s : DriveLog}

theorem settled_create
    (sectors : Disk) :
    (create sectors).Settled where
  started := le_rfl
  aligned := Dvd.intro 0 rfl
  past := le_rfl
  inRange := le_rfl
  last := rfl
  there := fun _ _ => rfl

/- Every request can be made on a clock that has started. -/
theorem Settled.clock
    (hInv : s.Settled)
    {now : Int}
    (hNow : s.done ≤ now) :
    0 ≤ now :=
  (hInv.started.trans hInv.past).trans hNow

/- A request on the same track keeps the buffer. -/
theorem Settled.stay
    (hInv : s.Settled)
    (hNow : s.done ≤ now)
    (hSector : 0 ≤ sectorNumber)
    (hSame :
      DiskDrive.trackOf sectorNumber =
        DiskDrive.trackOf s.drive.lastSector)
    (sectors : Disk)
    {ticks : Int}
    (hTicks : 0 ≤ ticks) :
    (s.record now sectorNumber
      ({ s.drive with
          sectors := sectors
          active := true
          lastSector := sectorNumber }, ticks)).Settled where
  started := hInv.started
  aligned := hInv.aligned
  past := by
    have hPast := hInv.past
    show s.drive.bufferInit ≤ now + ticks
    omega
  inRange := hSector
  last := rfl
  there := by
    intro t ht
    apply Arm.trackAt_same (hInv.last.trans hSame.symm)
    rw [hSame]
    exact hInv.there t ht

/- After a seek the buffer starts when the arm is there. -/
theorem Settled.seek
    (hInv : s.Settled)
    (hNow : s.done ≤ now)
    (hSector : 0 ≤ sectorNumber)
    (sectors : Disk)
    {ticks : Int}
    (hTicks :
      RotationTime * s.drive.arrival now sectorNumber ≤
        now + ticks) :
    (s.record now sectorNumber
      ({ s.drive with
          sectors := sectors
          active := true
          bufferInit :=
            RotationTime * s.drive.arrival now sectorNumber
          lastSector := sectorNumber }, ticks)).Settled where
  started :=
    Int.mul_nonneg (by decide)
      (DiskDrive.arrival_nonneg (hInv.clock hNow))
  aligned := Dvd.intro _ rfl
  past := hTicks
  inRange := hSector
  last := rfl
  there := by
    intro t ht
    have hMul := s.drive.mul_arrival now sectorNumber
    have hRound := Cyclic.wait_nonneg
      (by decide : 0 < RotationTime)
      (now + s.drive.travel sectorNumber) 0
    have hLate :
        now + s.drive.travel sectorNumber ≤ t := by
      refine le_trans ?_ ht
      show _ ≤ RotationTime * s.drive.arrival now sectorNumber
      omega
    apply Arm.trackAt_arrived
    rw [hInv.last]
    exact hLate

/- A request keeps the buffer, or starts it again. -/
theorem Settled.start
    (hInv : s.Settled)
    (hNow : s.done ≤ now)
    (hSector : 0 ≤ sectorNumber)
    (writing : Bool)
    (sectors : Disk) :
    (s.record now sectorNumber
      (s.drive.start now sectorNumber writing
        sectors)).Settled := by
  have hClock := hInv.clock hNow
  rw [DiskDrive.start_eq hClock hInv.inRange hSector]
  by_cases hTravel : s.drive.travel sectorNumber = 0
  · rw [if_neg (not_not.mpr hTravel)]
    have hLong := DiskDrive.rotationTime_le_latency hClock
      hInv.inRange hSector writing
    exact hInv.stay hNow hSector
      (DiskDrive.travel_eq_zero.mp hTravel) sectors
      (le_trans (by decide) hLong)
  · rw [if_pos hTravel]
    apply hInv.seek hNow hSector sectors
    exact DiskDrive.arrival_le_completion hClock hInv.inRange
      hSector hTravel

theorem Settled.step
    (hInv : s.Settled)
    {a : DriveAction}
    {t : DriveLog}
    (hAllowed : system.allowed s a)
    (hRun : s.step a = some t) :
    t.Settled := by
  cases a with
  | read now sectorNumber =>
      rcases Option.bind_eq_some_iff.mp hRun with
        ⟨⟨data, started⟩, hRead, hEq⟩
      cases hEq
      rcases DiskDrive.readRequest_cases hRead with
        ⟨hSector, rfl⟩
      exact hInv.start hAllowed hSector false _
  | write now sectorNumber data =>
      rcases Option.bind_eq_some_iff.mp hRun with
        ⟨started, hWrite, hEq⟩
      cases hEq
      rcases DiskDrive.writeRequest_cases hWrite with
        ⟨hSector, sectors, rfl⟩
      exact hInv.start hAllowed hSector true sectors
  | interrupt =>
      cases hRun
      exact ⟨hInv.started, hInv.aligned, hInv.past,
        hInv.inRange, hInv.last, hInv.there⟩

theorem settled_of_reachable
    (hReach : system.Reachable s) :
    s.Settled := by
  refine hReach.invariant (P := Settled) ?_ ?_
  · intro s hInit
    rcases hInit with ⟨sectors, rfl⟩
    exact settled_create sectors
  · intro s a t hInv hAllowed hRun
    exact hInv.step hAllowed hRun

/-
  At every request the buffer has started, at a boundary of
  sectors.  A read that finds its sector in the buffer is for
  the track on which the arm is since then, and the sector
  has passed under the head in a slot after the start and
  before the read is done.  Writes take the mechanical path,
  which is never faster.
-/
theorem track_buffer_sound
    (hReach : system.Reachable s)
    {now sectorNumber : Int}
    (hNow : s.done ≤ now)
    (hSector :
      0 ≤ sectorNumber ∧ sectorNumber < NumSectors) :
    (RotationTime ∣ s.drive.bufferInit ∧
      s.drive.bufferInit ≤ now) ∧
    (s.drive.trackBuffered now sectorNumber false = true →
      (∀ t, s.drive.bufferInit ≤ t →
        Arm.trackAt
            (⟨now, DiskDrive.trackOf sectorNumber⟩ ::
              s.moves) t =
          some (DiskDrive.trackOf sectorNumber)) ∧
      ∃ start,
        RotationTime ∣ start ∧
        (start / RotationTime) % SectorsPerTrack =
          sectorNumber % SectorsPerTrack ∧
        s.drive.bufferInit ≤ start ∧
        start + RotationTime ≤
          now +
            s.drive.computeLatency now sectorNumber false) ∧
    s.drive.trackBuffered now sectorNumber true = false ∧
    s.drive.computeLatency now sectorNumber false ≤
      s.drive.computeLatency now sectorNumber true := by
  have hInv := settled_of_reachable hReach
  have hClock := hInv.clock hNow
  refine ⟨⟨hInv.aligned, hInv.past.trans hNow⟩, ?_,
    DiskDrive.trackBuffered_writing _ _ _,
    DiskDrive.latency_le_writing hClock hInv.inRange
      hSector.1 false⟩
  intro hBuffered
  rcases hInv.aligned with ⟨b, hBuffer⟩
  have hStart : 0 ≤ b := by
    have hStarted := hInv.started
    simp only [RotationTime] at hBuffer
    omega
  rcases DiskDrive.slot_of_buffered hClock hInv.inRange
    hSector.1 hStart hBuffer hBuffered with ⟨hSame, hSlot⟩
  refine ⟨?_, hSlot⟩
  intro t ht
  apply Arm.trackAt_same (hInv.last.trans hSame.symm)
  rw [hSame]
  exact hInv.there t ht

/- After a first read, for which the arm seeks track 1. -/
def sought : DriveLog :=
  (create fun _ _ => 0).record 0 38
    ((DiskDrive.create fun _ _ => 0).start 0 38 false
      fun _ _ => 0)

theorem sought_reachable :
    system.Reachable sought := by
  have hStart : system.Reachable (create fun _ _ => 0) :=
    .of_init ⟨_, rfl⟩
  exact hStart.of_step
    (a := DriveAction.read 0 38) (le_refl (0 : Int)) rfl

/- An earlier sector of that track is in the buffer. -/
theorem track_buffer_sound_hit :
    sought.done ≤ 3500 ∧
    sought.drive.trackBuffered 3500 34 false = true ∧
    ∃ start,
      (start / RotationTime) % SectorsPerTrack =
        34 % SectorsPerTrack ∧
      sought.drive.bufferInit ≤ start ∧
      start + RotationTime ≤
        3500 + sought.drive.computeLatency 3500 34 false := by
  have hNow : sought.done ≤ 3500 := by decide
  have hBuffered :
      sought.drive.trackBuffered 3500 34 false = true := by
    decide
  rcases ((track_buffer_sound sought_reachable hNow
    (by decide)).2.1 hBuffered).2 with
    ⟨start, _, hPosition, hFrom, hUntil⟩
  exact ⟨hNow, hBuffered, start, hPosition, hFrom, hUntil⟩

end DriveLog

end Nachos
