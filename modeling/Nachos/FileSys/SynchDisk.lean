import Nachos.Lib.Bytes

/-
  The disk as the file system sees it: an array of sectors
  that are read and written as a whole.

  The file system uses the disk synchronously and from one
  thread at a time, so a request has completed when the call
  returns.  A sector number outside the disk is a failed
  assertion and gives `none`.

  Main declarations:
    * `Disk`
    * `Disk.byteAt`
-/

------------------------------------
-- Sectors
------------------------------------

namespace Nachos

open Bytes

abbrev SectorSize : Nat := 128

abbrev SectorsPerTrack : Nat := 32

abbrev NumTracks : Nat := 32

abbrev NumSectors : Nat := SectorsPerTrack * NumTracks

abbrev Sector :=
  Fin SectorSize → Byte

abbrev Disk :=
  Fin NumSectors → Sector

/-
  What `new` found in the memory it returned: byte `i` of
  the `k`th block allocated by an operation.
-/
abbrev Memory :=
  Nat → Nat → Byte

/- The blocks that are left after `k` allocations. -/
def Memory.after
    (memory : Memory)
    (k : Nat) :
    Memory :=
  fun i => memory (i + k)

namespace SynchDisk

def readSector
    (disk : Disk)
    (sectorNumber : Int) :
    Option Sector :=
  if h : 0 ≤ sectorNumber ∧ sectorNumber < NumSectors then
    some (disk ⟨sectorNumber.toNat, by omega⟩)
  else
    none

def writeSector
    (disk : Disk)
    (sectorNumber : Int)
    (data : Sector) :
    Option Disk :=
  if h : 0 ≤ sectorNumber ∧ sectorNumber < NumSectors then
    some (Function.update disk
      ⟨sectorNumber.toNat, by omega⟩ data)
  else
    none

end SynchDisk

end Nachos

------------------------------------
-- Bytes of the Disk
------------------------------------

namespace Nachos

open Bytes

namespace Disk

/- A byte of the disk; zero outside of the disk. -/
def byteAt
    (disk : Disk)
    (sector offset : Nat) :
    Byte :=
  if h : sector < NumSectors ∧ offset < SectorSize then
    disk ⟨sector, h.1⟩ ⟨offset, h.2⟩
  else
    0

@[simp] theorem byteAt_val
    (disk : Disk)
    (sector : Fin NumSectors)
    (offset : Fin SectorSize) :
    disk.byteAt sector offset = disk sector offset := by
  simp [byteAt]

/- Replacing a sector keeps the bytes of the others. -/
theorem byteAt_update_of_ne
    (disk : Disk)
    {sector : Fin NumSectors}
    (data : Sector)
    {s : Nat}
    (hNe : s ≠ sector)
    (offset : Nat) :
    Disk.byteAt (Function.update disk sector data) s offset =
      disk.byteAt s offset := by
  unfold byteAt
  by_cases hIn : s < NumSectors ∧ offset < SectorSize
  · have hNe' : (⟨s, hIn.1⟩ : Fin NumSectors) ≠ sector := by
      intro hEq
      exact hNe (congrArg Fin.val hEq)
    rw [dif_pos hIn, dif_pos hIn,
      Function.update_of_ne hNe']
  · rw [dif_neg hIn, dif_neg hIn]

end Disk

namespace SynchDisk

theorem readSector_natCast
    (disk : Disk)
    {s : Nat}
    (hs : s < NumSectors) :
    readSector disk s = some (disk ⟨s, hs⟩) := by
  have hRange : (0 : Int) ≤ s ∧ (s : Int) < NumSectors := by
    omega
  simp only [readSector, hRange, and_self, dif_pos,
    Int.toNat_natCast]

theorem writeSector_natCast
    (disk : Disk)
    {s : Nat}
    (hs : s < NumSectors)
    (data : Sector) :
    writeSector disk s data =
      some (Function.update disk ⟨s, hs⟩ data) := by
  have hRange : (0 : Int) ≤ s ∧ (s : Int) < NumSectors := by
    omega
  simp only [writeSector, hRange, and_self, dif_pos,
    Int.toNat_natCast]

end SynchDisk

end Nachos
