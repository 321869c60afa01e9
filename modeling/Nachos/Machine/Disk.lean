import Nachos.FileSys.SynchDisk

/-
  The physical disk.

  A request reads or writes its sector at once; what takes
  time is the interrupt that tells that it is done.  The time
  is computed from the position of the head and from what is
  in the track buffer.  Division truncates, as in C.

  A failed assertion gives `none`.

  Main declarations:
    * `DiskDrive`
    * `DiskDrive.computeLatency`
-/

------------------------------------
-- Latency
------------------------------------

namespace Nachos

abbrev RotationTime : Int := 500

abbrev SeekTime : Int := 500

structure DiskDrive where
  sectors : Disk
  active : Bool
  lastSector : Int
  bufferInit : Int

namespace DiskDrive

def create
    (sectors : Disk) :
    DiskDrive where
  sectors := sectors
  active := false
  lastSector := 0
  bufferInit := 0

/-
  How long it takes to seek the track of a sector, and then
  to get to the boundary of the next sector.
-/
def timeToSeek
    (d : DiskDrive)
    (totalTicks newSector : Int) :
    Int × Int :=
  let newTrack := newSector.tdiv SectorsPerTrack
  let oldTrack := d.lastSector.tdiv SectorsPerTrack
  let seek := (newTrack - oldTrack).natAbs * SeekTime
  let overshoot := (totalTicks + seek).tmod RotationTime
  (seek, if overshoot > 0 then RotationTime - overshoot else 0)

/- Sectors that pass until the target sector is reached. -/
def moduloDiff
    (target current : Int) :
    Int :=
  let toOffset := target.tmod SectorsPerTrack
  let fromOffset := current.tmod SectorsPerTrack
  (toOffset - fromOffset + SectorsPerTrack).tmod
    SectorsPerTrack

/- Is the sector in the track buffer already? -/
def trackBuffered
    (d : DiskDrive)
    (totalTicks newSector : Int)
    (writing : Bool) : Bool :=
  let (seek, rotation) := d.timeToSeek totalTicks newSector
  let timeAfter := totalTicks + seek + rotation
  !writing && seek == 0 &&
    decide ((timeAfter - d.bufferInit).tdiv RotationTime >
      moduloDiff newSector (d.bufferInit.tdiv RotationTime))

def computeLatency
    (d : DiskDrive)
    (totalTicks newSector : Int)
    (writing : Bool) :
    Int :=
  let (seek, rotation) := d.timeToSeek totalTicks newSector
  let timeAfter := totalTicks + seek + rotation
  if d.trackBuffered totalTicks newSector writing then
    RotationTime
  else
    let rotation :=
      rotation +
        moduloDiff newSector (timeAfter.tdiv RotationTime) *
          RotationTime
    seek + rotation + RotationTime

/- Remember the sector, and when its track was reached. -/
def updateLast
    (d : DiskDrive)
    (totalTicks newSector : Int) :
    DiskDrive :=
  let (seek, rotate) := d.timeToSeek totalTicks newSector
  { d with
    bufferInit :=
      if seek ≠ 0 then
        totalTicks + seek + rotate
      else
        d.bufferInit
    lastSector := newSector }

end DiskDrive

end Nachos

------------------------------------
-- Requests
------------------------------------

namespace Nachos

namespace DiskDrive

/-
  What a request does apart from the transfer: the disk is
  active until the interrupt that is due after `ticks`.
-/
def start
    (d : DiskDrive)
    (totalTicks sectorNumber : Int)
    (writing : Bool)
    (sectors : Disk) :
    DiskDrive × Int :=
  let ticks := d.computeLatency totalTicks sectorNumber writing
  ({ d with
      sectors := sectors
      active := true }.updateLast totalTicks sectorNumber,
    ticks)

/-
  Only one request at a time.  The result has the bytes, and
  how long the request takes.
-/
def readRequest
    (d : DiskDrive)
    (totalTicks sectorNumber : Int) :
    Option (Sector × DiskDrive × Int) :=
  if d.active = false then do
    let data ← SynchDisk.readSector d.sectors sectorNumber
    some (data,
      d.start totalTicks sectorNumber false d.sectors)
  else
    none

def writeRequest
    (d : DiskDrive)
    (totalTicks sectorNumber : Int)
    (data : Sector) :
    Option (DiskDrive × Int) :=
  if d.active = false then do
    let sectors ←
      SynchDisk.writeSector d.sectors sectorNumber data
    some (d.start totalTicks sectorNumber true sectors)
  else
    none

/- The request is done. -/
def handleInterrupt
    (d : DiskDrive) :
    DiskDrive :=
  { d with active := false }

end DiskDrive

end Nachos
