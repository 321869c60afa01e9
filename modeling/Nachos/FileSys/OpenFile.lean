import Nachos.FileSys.FileHeader

/-
  Open files: byte-granular reads and writes on top of whole
  sectors.

  Positions and byte counts are host integers.  A copy that
  leaves one of its buffers, a table index outside a header
  and a sector outside the disk give `none`.

  Main declarations:
    * `OpenFile.read`
    * `OpenFile.write`
-/

------------------------------------
-- Buffers
------------------------------------

namespace Nachos

open Bytes

/- Memory behind a pointer, by offset. -/
abbrev Buffer :=
  Nat → Byte

namespace Buffer

/- Store `bytes` in the buffer from offset `start` on. -/
def store
    (buf : Buffer)
    (start : Nat)
    (bytes : List Byte) :
    Buffer :=
  fun k =>
    if start ≤ k ∧ k < start + bytes.length then
      bytes.getD (k - start) 0
    else
      buf k

/- Store one sector in the buffer. -/
def storeSector
    (buf : Buffer)
    (start : Nat)
    (data : Sector) :
    Buffer :=
  buf.store start (List.ofFn data)

/- The sector at offset `start` of the buffer. -/
def sectorAt
    (buf : Buffer)
    (start : Nat) :
    Sector :=
  fun i => buf (start + i)

/-
  `bcopy` out of a buffer of `size` bytes; the copy must stay
  inside the buffer.
-/
def copyOut
    (buf : Buffer)
    (size start numBytes : Int) :
    Option (List Byte) :=
  if 0 ≤ start ∧ 0 ≤ numBytes ∧ start + numBytes ≤ size then
    some ((List.range numBytes.toNat).map
      fun k => buf (start.toNat + k))
  else
    none

/-
  `bcopy` of `numBytes` bytes into a buffer of `size` bytes;
  the copy must stay inside the buffer and inside the source.
-/
def copyIn
    (buf : Buffer)
    (size start : Int)
    (source : List Byte)
    (numBytes : Int) :
    Option Buffer :=
  if 0 ≤ start ∧ 0 ≤ numBytes ∧
      start + numBytes ≤ size ∧
      numBytes ≤ source.length then
    some (buf.store start.toNat
      (source.take numBytes.toNat))
  else
    none

end Buffer

end Nachos

------------------------------------
-- Reads
------------------------------------

namespace Nachos

open Bytes CInt

structure OpenFile where
  hdr : FileHeader
  seekPosition : Int

namespace OpenFile

/- Open the file whose header is located at `sector`. -/
def openAt
    (disk : Disk)
    (sector : Int) :
    Option OpenFile :=
  (FileHeader.fetchFrom disk sector).map fun hdr =>
    { hdr := hdr, seekPosition := 0 }

/- Read `n` sectors of the file into the buffer. -/
def readSectors
    (file : OpenFile)
    (disk : Disk)
    (firstSector : Int)
    (buf : Buffer) :
    Nat → Option Buffer
| 0 => some buf
| n + 1 => do
    let buf ← readSectors file disk firstSector buf n
    let sector ←
      file.hdr.byteToSector ((firstSector + n) * SectorSize)
    let data ← SynchDisk.readSector disk sector
    some (buf.storeSector (n * SectorSize) data)

/- The bytes of a request that lie in the file. -/
def clip
    (fileLength numBytes position : Int) :
    Int :=
  if wrap (position + numBytes) > fileLength then
    wrap (fileLength - position)
  else
    numBytes

/-
  Read a portion of the file, starting at `position`: the
  number of bytes read, and these bytes.
-/
def readAt
    (file : OpenFile)
    (memory : Memory)
    (disk : Disk)
    (numBytes position : Int) :
    Option (Int × List Byte) :=
  let fileLength := file.hdr.fileLength
  if numBytes ≤ 0 ∨ position ≥ fileLength then
    some (0, [])
  else do
    let numBytes := clip fileLength numBytes position
    let firstSector := divRoundDown position SectorSize
    let lastSector :=
      divRoundDown (wrap (wrap (position + numBytes) - 1))
        SectorSize
    let numSectors := 1 + lastSector - firstSector
    let buf ←
      file.readSectors disk firstSector (memory 0)
        numSectors.toNat
    let bytes ←
      buf.copyOut (numSectors * SectorSize)
        (position - firstSector * SectorSize) numBytes
    some (numBytes, bytes)

end OpenFile

end Nachos

------------------------------------
-- Writes
------------------------------------

namespace Nachos

open Bytes CInt

namespace OpenFile

/- Write `n` sectors of the buffer to the file. -/
def writeSectors
    (file : OpenFile)
    (disk : Disk)
    (firstSector : Int)
    (buf : Buffer) :
    Nat → Option Disk
| 0 => some disk
| n + 1 => do
    let disk ← writeSectors file disk firstSector buf n
    let sector ←
      file.hdr.byteToSector ((firstSector + n) * SectorSize)
    SynchDisk.writeSector disk sector
      (buf.sectorAt (n * SectorSize))

/-
  Read the sector at `position` of the file into the buffer,
  as far as the file reaches.
-/
def readPartial
    (file : OpenFile)
    (memory : Memory)
    (disk : Disk)
    (buf : Buffer)
    (start : Nat)
    (position : Int) :
    Option Buffer := do
  let (_, bytes) ←
    file.readAt memory disk SectorSize position
  some (buf.store start bytes)

/-
  Read in the first and the last sector of a request, if they
  are to be partially modified.
-/
def readEdges
    (file : OpenFile)
    (memory : Memory)
    (disk : Disk)
    (buf : Buffer)
    (firstSector lastSector : Int)
    (firstAligned lastAligned : Bool) :
    Option Buffer := do
  let buf ←
    if !firstAligned then
      file.readPartial memory disk buf 0
        (firstSector * SectorSize)
    else
      some buf
  if !lastAligned &&
      (firstSector != lastSector || firstAligned) then
    file.readPartial (memory.after 1) disk buf
      ((lastSector - firstSector) * SectorSize).toNat
      (lastSector * SectorSize)
  else
    some buf

/-
  Write a portion of the file, starting at `position`: the
  number of bytes written, and the disk afterwards.
-/
def writeAt
    (file : OpenFile)
    (memory : Memory)
    (disk : Disk)
    (source : List Byte)
    (numBytes position : Int) :
    Option (Int × Disk) :=
  let fileLength := file.hdr.fileLength
  if numBytes ≤ 0 ∨ position ≥ fileLength then
    some (0, disk)
  else do
    let numBytes := clip fileLength numBytes position
    let firstSector := divRoundDown position SectorSize
    let lastSector :=
      divRoundDown (wrap (wrap (position + numBytes) - 1))
        SectorSize
    let numSectors := 1 + lastSector - firstSector
    let firstAligned :=
      position == firstSector * SectorSize
    let lastAligned :=
      wrap (position + numBytes) ==
        (lastSector + 1) * SectorSize
    let buf ←
      file.readEdges (memory.after 1) disk (memory 0)
        firstSector lastSector firstAligned lastAligned
    let buf ←
      buf.copyIn (numSectors * SectorSize)
        (position - firstSector * SectorSize) source numBytes
    let disk ←
      file.writeSectors disk firstSector buf
        numSectors.toNat
    some (numBytes, disk)

------------------------------------
-- Sequential Access
------------------------------------

def seek
    (file : OpenFile)
    (position : Int) :
    OpenFile :=
  { file with seekPosition := position }

/- Read at the current position and advance it. -/
def read
    (file : OpenFile)
    (memory : Memory)
    (disk : Disk)
    (numBytes : Int) :
    Option (Int × List Byte × OpenFile) := do
  let (result, bytes) ←
    file.readAt memory disk numBytes file.seekPosition
  some (result, bytes,
    file.seek (wrap (file.seekPosition + result)))

/- Write at the current position and advance it. -/
def write
    (file : OpenFile)
    (memory : Memory)
    (disk : Disk)
    (source : List Byte)
    (numBytes : Int) :
    Option (Int × Disk × OpenFile) := do
  let (result, disk) ←
    file.writeAt memory disk source numBytes
      file.seekPosition
  some (result, disk,
    file.seek (wrap (file.seekPosition + result)))

def length
    (file : OpenFile) :
    Int :=
  file.hdr.fileLength

end OpenFile

end Nachos
