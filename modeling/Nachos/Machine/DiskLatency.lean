import Nachos.Lib.Cyclic
import Nachos.Machine.Disk
import Nachos.Machine.Interrupt

/-
  How long a disk request takes.

  The head travels to the track, and then the sector has to
  pass under it completely.  The end of the first slot of
  time in which it does is when the request is done, unless
  the sector is in the track buffer.

  Main declarations:
    * `DiskDrive.travel`
    * `DiskDrive.arrival`
    * `DiskDrive.computeLatency_eq`
    * `DiskDrive.isLeast_completion`
    * `DiskDrive.latency_least`
-/

------------------------------------
-- Seeking and Rotating
------------------------------------

namespace Nachos

namespace DiskDrive

def trackOf
    (sector : Int) :
    Int :=
  sector / SectorsPerTrack

/- The time that the head is under way to a sector. -/
def travel
    (d : DiskDrive)
    (newSector : Int) :
    Int :=
  SeekTime * (trackOf newSector - trackOf d.lastSector).natAbs

theorem travel_nonneg
    (d : DiskDrive)
    (newSector : Int) :
    0 ≤ d.travel newSector :=
  Int.mul_nonneg (by decide) (Int.natCast_nonneg _)

/- No travel is needed exactly within a track. -/
theorem travel_eq_zero
    {d : DiskDrive}
    {newSector : Int} :
    d.travel newSector = 0 ↔
      trackOf newSector = trackOf d.lastSector := by
  simp only [travel, SeekTime]
  omega

/- Seek, and round up to a boundary of sectors. -/
theorem timeToSeek_eq
    {d : DiskDrive}
    {totalTicks newSector : Int}
    (hTicks : 0 ≤ totalTicks)
    (hLast : 0 ≤ d.lastSector)
    (hNew : 0 ≤ newSector) :
    d.timeToSeek totalTicks newSector =
      (d.travel newSector,
        Cyclic.wait RotationTime
          (totalTicks + d.travel newSector) 0) := by
  have hSeek :
      ((newSector.tdiv SectorsPerTrack -
        d.lastSector.tdiv SectorsPerTrack).natAbs : Int) *
          SeekTime = d.travel newSector := by
    rw [Int.tdiv_eq_ediv_of_nonneg hNew,
      Int.tdiv_eq_ediv_of_nonneg hLast, Int.mul_comm]
    rfl
  have hTravel := d.travel_nonneg newSector
  rw [timeToSeek]
  simp only [hSeek]
  rw [Int.tmod_eq_emod_of_nonneg (by omega)]
  refine Prod.ext rfl ?_
  simp only [Cyclic.wait, RotationTime]
  split <;> omega

/- The sectors to wait for, in the order they pass by. -/
theorem moduloDiff_eq
    {target current : Int}
    (hTarget : 0 ≤ target)
    (hCurrent : 0 ≤ current) :
    moduloDiff target current =
      Cyclic.wait SectorsPerTrack current target := by
  rw [moduloDiff, Int.tmod_eq_emod_of_nonneg hTarget,
    Int.tmod_eq_emod_of_nonneg hCurrent]
  simp only [Cyclic.wait, SectorsPerTrack]
  rw [Int.tmod_eq_emod_of_nonneg (by omega)]
  omega

------------------------------------
-- Completion Times
------------------------------------

/- The first slot that the head spends on the track. -/
def arrival
    (d : DiskDrive)
    (totalTicks newSector : Int) :
    Int :=
  Cyclic.firstSlot RotationTime
    (totalTicks + d.travel newSector)

/-
  The sector passes under the head, once the head is there,
  in the slot of time that ends at `c`.
-/
def SectorPasses
    (d : DiskDrive)
    (totalTicks newSector c : Int) : Prop :=
  Cyclic.Passes RotationTime SectorsPerTrack
    (totalTicks + d.travel newSector) newSector c

variable {d : DiskDrive}
variable {totalTicks newSector : Int}

theorem mul_arrival
    (d : DiskDrive)
    (totalTicks newSector : Int) :
    RotationTime * d.arrival totalTicks newSector =
      totalTicks + d.travel newSector +
        Cyclic.wait RotationTime
          (totalTicks + d.travel newSector) 0 :=
  Cyclic.mul_firstSlot (by decide) _

theorem arrival_nonneg
    (hTicks : 0 ≤ totalTicks) :
    0 ≤ d.arrival totalTicks newSector := by
  have hTravel := d.travel_nonneg newSector
  have hWait := Cyclic.wait_nonneg
    (by decide : 0 < RotationTime)
    (totalTicks + d.travel newSector) 0
  have hMul := d.mul_arrival totalTicks newSector
  simp only [RotationTime] at hMul hWait
  omega

theorem trackBuffered_writing
    (d : DiskDrive)
    (totalTicks newSector : Int) :
    d.trackBuffered totalTicks newSector true = false :=
  rfl

/- The latency with and without the track buffer. -/
theorem computeLatency_eq
    (hTicks : 0 ≤ totalTicks)
    (hLast : 0 ≤ d.lastSector)
    (hNew : 0 ≤ newSector)
    (writing : Bool) :
    totalTicks +
        d.computeLatency totalTicks newSector writing =
      if d.trackBuffered totalTicks newSector writing then
        totalTicks + RotationTime
      else
        RotationTime * (d.arrival totalTicks newSector +
          Cyclic.wait SectorsPerTrack
            (d.arrival totalTicks newSector) newSector + 1)
    := by
  have hArrival : 0 ≤ d.arrival totalTicks newSector :=
    arrival_nonneg hTicks
  have hMul := d.mul_arrival totalTicks newSector
  have hSlot :
      (RotationTime * d.arrival totalTicks newSector).tdiv
        RotationTime = d.arrival totalTicks newSector :=
    Int.mul_tdiv_cancel_left _ (by decide)
  rw [computeLatency, timeToSeek_eq hTicks hLast hNew]
  simp only [← hMul, hSlot]
  rw [moduloDiff_eq hNew hArrival]
  split
  · rfl
  · simp only [RotationTime] at hMul ⊢
    omega

/- Without the track buffer nothing can be faster. -/
theorem isLeast_completion
    {writing : Bool}
    (hTicks : 0 ≤ totalTicks)
    (hLast : 0 ≤ d.lastSector)
    (hNew : 0 ≤ newSector)
    (hPath :
      d.trackBuffered totalTicks newSector writing = false) :
    IsLeast {c | d.SectorPasses totalTicks newSector c}
      (totalTicks +
        d.computeLatency totalTicks newSector writing) := by
  rw [computeLatency_eq hTicks hLast hNew, hPath]
  exact Cyclic.isLeast_passes (by decide) (by decide) _ _

/- A request takes at least as long as a sector passes. -/
theorem rotationTime_le_latency
    (hTicks : 0 ≤ totalTicks)
    (hLast : 0 ≤ d.lastSector)
    (hNew : 0 ≤ newSector)
    (writing : Bool) :
    RotationTime ≤
      d.computeLatency totalTicks newSector writing := by
  cases hPath :
      d.trackBuffered totalTicks newSector writing with
  | true =>
      have hLatency :=
        computeLatency_eq hTicks hLast hNew writing
      rw [hPath, if_pos rfl] at hLatency
      omega
  | false =>
      have hAfter := (isLeast_completion hTicks hLast hNew
        hPath).1.after
      have hTravel := d.travel_nonneg newSector
      omega

/-
  A request that is not served from the track buffer is done
  at the first possible time.  No request is done at once, so
  its interrupt can be scheduled.
-/
theorem latency_least
    {writing : Bool}
    (hTicks : 0 ≤ totalTicks)
    (hLast : 0 ≤ d.lastSector ∧ d.lastSector < NumSectors)
    (hNew : 0 ≤ newSector ∧ newSector < NumSectors) :
    (d.trackBuffered totalTicks newSector writing = false →
      IsLeast
        {c |
          RotationTime ∣ c ∧
          c - RotationTime ≥
            totalTicks +
              SeekTime * (newSector / SectorsPerTrack -
                d.lastSector / SectorsPerTrack).natAbs ∧
          (c / RotationTime - 1) % SectorsPerTrack =
            newSector % SectorsPerTrack}
        (totalTicks +
          d.computeLatency totalTicks newSector writing)) ∧
    0 < d.computeLatency totalTicks newSector writing ∧
    ∀ {H : Type} (i : Interrupt H) (handler : H),
      ∃ j, i.schedule handler
        (d.computeLatency totalTicks newSector writing)
        .disk = some j := by
  have hLong :=
    rotationTime_le_latency hTicks hLast.1 hNew.1 writing
  have hPos :
      0 < d.computeLatency totalTicks newSector writing :=
    lt_of_lt_of_le (by decide) hLong
  refine ⟨?_, hPos, ?_⟩
  · intro hPath
    have hLeast :=
      isLeast_completion hTicks hLast.1 hNew.1 hPath
    constructor
    · rcases hLeast.1 with ⟨hAligned, hAfter, hPosition⟩
      exact ⟨hAligned, hAfter, hPosition⟩
    · intro c hc
      rcases hc with ⟨hAligned, hAfter, hPosition⟩
      exact hLeast.2 ⟨hAligned, hAfter, hPosition⟩
  · intro H i handler
    rw [Interrupt.schedule, if_pos hPos]
    exact ⟨_, rfl⟩

/- A drive whose last request was for the sector. -/
def parkedAt
    (sector : Int) :
    DiskDrive :=
  { create fun _ _ => 0 with lastSector := sector }

/- A write on another track, in the middle of a sector. -/
theorem latency_least_far :
    (parkedAt 40).computeLatency 1234 5 true = 1766 ∧
    IsLeast
      {c |
        RotationTime ∣ c ∧
        c - RotationTime ≥
          1234 +
            SeekTime * (5 / SectorsPerTrack -
              (parkedAt 40).lastSector /
                SectorsPerTrack).natAbs ∧
        (c / RotationTime - 1) % SectorsPerTrack =
          5 % SectorsPerTrack}
      (1234 + (parkedAt 40).computeLatency 1234 5 true) := by
  have hPath :
      (parkedAt 40).trackBuffered 1234 5 true = false :=
    trackBuffered_writing _ _ _
  refine ⟨by decide, ?_⟩
  exact (latency_least (by decide) (by decide)
    (by decide)).1 hPath

end DiskDrive

end Nachos
