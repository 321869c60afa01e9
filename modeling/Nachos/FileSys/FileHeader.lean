import Mathlib.Data.List.Nodup
import Nachos.FileSys.SynchDisk
import Nachos.Lib.CInt
import Nachos.UserProg.BitMap

/-
  File headers: the length of a file and the table of the
  disk sectors that hold its data.

  Main declarations:
    * `FileHeader.image`
    * `FileHeader.WellFormed`
-/

------------------------------------
-- The Header and Its Sector
------------------------------------

namespace Nachos

open Bytes CInt

abbrev NumDirect : Nat := (SectorSize - 2 * 4) / 4

abbrev MaxFileSize : Nat := NumDirect * SectorSize

structure FileHeader where
  numBytes : BitVec 32
  numSectors : BitVec 32
  dataSectors : Fin NumDirect → BitVec 32

namespace FileHeader

/- A header is a row of words. -/
def words :
    FileHeader ≃ (Fin (NumDirect + 2) → BitVec 32) where
  toFun := fun hdr =>
    Fin.cons hdr.numBytes
      (Fin.cons hdr.numSectors hdr.dataSectors)
  invFun := fun w =>
    ⟨w 0, w 1, fun i => w i.succ.succ⟩
  left_inv := by
    rintro ⟨numBytes, numSectors, dataSectors⟩
    rfl
  right_inv := by
    intro w
    funext i
    refine Fin.cases rfl (fun i => ?_) i
    refine Fin.cases rfl (fun i => ?_) i
    rfl

/- The header fills exactly one disk sector. -/
def image : FileHeader ≃ Sector :=
  words.trans (arrayImage wordImage (NumDirect + 2))

def fetchFrom
    (disk : Disk)
    (sector : Int) :
    Option FileHeader :=
  (SynchDisk.readSector disk sector).map image.symm

def writeBack
    (hdr : FileHeader)
    (disk : Disk)
    (sector : Int) :
    Option Disk :=
  SynchDisk.writeSector disk sector (image hdr)

/-
  The sector that stores a byte of the file.  An index
  outside the table is outside of the header's memory.
-/
def byteToSector
    (hdr : FileHeader)
    (offset : Int) :
    Option Int :=
  let index := divRoundDown offset SectorSize
  if h : 0 ≤ index ∧ index < NumDirect then
    some (hdr.dataSectors ⟨index.toNat, by omega⟩).toInt
  else
    none

def fileLength
    (hdr : FileHeader) :
    Int :=
  hdr.numBytes.toInt

end FileHeader

end Nachos

------------------------------------
-- Allocation
------------------------------------

namespace Nachos

open CInt

namespace FileHeader

/- The first `n` rounds of the loop that fills the table. -/
def allocateLoop
    (hdr : FileHeader)
    (freeMap : BitMap NumSectors) :
    Nat → Option (FileHeader × BitMap NumSectors)
| 0 => some (hdr, freeMap)
| n + 1 => do
    let (hdr, freeMap) ← allocateLoop hdr freeMap n
    let (sector, freeMap) := freeMap.find
    if h : n < NumDirect then
      some
        ({ hdr with
            dataSectors :=
              Function.update hdr.dataSectors ⟨n, h⟩
                (BitVec.ofInt 32 sector) },
          freeMap)
    else
      none

/-
  Initialize a fresh header and take the data blocks out of
  the free map.  The result is false when there are not
  enough free blocks.
-/
def allocate
    (hdr : FileHeader)
    (freeMap : BitMap NumSectors)
    (fileSize : Int) :
    Option (Bool × FileHeader × BitMap NumSectors) :=
  let numSectors := divRoundUp fileSize SectorSize
  let hdr :=
    { hdr with
      numBytes := BitVec.ofInt 32 fileSize
      numSectors := BitVec.ofInt 32 numSectors }
  if (freeMap.numClear : Int) < numSectors then
    some (false, hdr, freeMap)
  else do
    let (hdr, freeMap) ←
      allocateLoop hdr freeMap numSectors.toNat
    some (true, hdr, freeMap)

/- The first `n` rounds of the loop that frees the table. -/
def deallocateLoop
    (hdr : FileHeader)
    (freeMap : BitMap NumSectors) :
    Nat → Option (BitMap NumSectors)
| 0 => some freeMap
| n + 1 => do
    let freeMap ← deallocateLoop hdr freeMap n
    if h : n < NumDirect then
      let sector := (hdr.dataSectors ⟨n, h⟩).toInt
      -- ASSERT: ought to be marked
      if (← freeMap.test sector) then
        freeMap.clear sector
      else
        none
    else
      none

/- Give the data blocks back to the free map. -/
def deallocate
    (hdr : FileHeader)
    (freeMap : BitMap NumSectors) :
    Option (BitMap NumSectors) :=
  deallocateLoop hdr freeMap hdr.numSectors.toInt.toNat

end FileHeader

end Nachos

------------------------------------
-- Well-Formed Headers
------------------------------------

namespace Nachos

open Bytes CInt

namespace FileHeader

variable {hdr : FileHeader}

/- Number of bytes in the file. -/
def length
    (hdr : FileHeader) :
    Nat :=
  hdr.numBytes.toNat

/- Entry `i` of the sector table. -/
def sectorAt
    (hdr : FileHeader)
    (i : Nat) :
    Nat :=
  if h : i < NumDirect then
    (hdr.dataSectors ⟨i, h⟩).toNat
  else
    0

/- The data sectors in use, in file order. -/
def sectors
    (hdr : FileHeader) :
    List Nat :=
  (List.range hdr.numSectors.toNat).map hdr.sectorAt

/-
  The length is within the documented limit, the number of
  sectors is what that length needs, and these sectors exist.
-/
structure WellFormed
    (hdr : FileHeader) : Prop where
  length_le : hdr.length ≤ MaxFileSize
  numSectors_eq :
    hdr.numSectors.toNat =
      (hdr.length + (SectorSize - 1)) / SectorSize
  sector_lt :
    ∀ i < hdr.numSectors.toNat,
      hdr.sectorAt i < NumSectors

theorem WellFormed.fileLength_eq
    (hWf : hdr.WellFormed) :
    hdr.fileLength = hdr.length := by
  have hLength := hWf.length_le
  apply toInt_eq_toNat
  simp only [length, MaxFileSize, NumDirect, SectorSize]
    at hLength
  omega

/- Every byte of the file lies in a sector in use. -/
theorem WellFormed.div_lt
    (hWf : hdr.WellFormed)
    {p : Nat}
    (hp : p < hdr.length) :
    p / SectorSize < hdr.numSectors.toNat := by
  have hSectors := hWf.numSectors_eq
  simp only [SectorSize] at hSectors ⊢
  omega

theorem WellFormed.numSectors_le
    (hWf : hdr.WellFormed) :
    hdr.numSectors.toNat ≤ NumDirect := by
  have hSectors := hWf.numSectors_eq
  have hLength := hWf.length_le
  simp only [SectorSize, MaxFileSize, NumDirect]
    at hSectors hLength ⊢
  omega

theorem WellFormed.numSectors_toInt
    (hWf : hdr.WellFormed) :
    hdr.numSectors.toInt = hdr.numSectors.toNat := by
  have hDirect := hWf.numSectors_le
  apply toInt_eq_toNat
  simp only [NumDirect, SectorSize] at hDirect
  omega

theorem WellFormed.sector_lt_of_mem
    (hWf : hdr.WellFormed)
    {s : Nat}
    (hs : s ∈ hdr.sectors) :
    s < NumSectors := by
  rcases List.mem_map.mp hs with ⟨i, hi, rfl⟩
  exact hWf.sector_lt i (List.mem_range.mp hi)

theorem sectorAt_mem_sectors
    (hdr : FileHeader)
    {i : Nat}
    (hi : i < hdr.numSectors.toNat) :
    hdr.sectorAt i ∈ hdr.sectors :=
  List.mem_map_of_mem (List.mem_range.mpr hi)

/- Distinct places of a duplicate-free table differ. -/
theorem sectorAt_ne
    (hNodup : hdr.sectors.Nodup)
    {i j : Nat}
    (hi : i < hdr.numSectors.toNat)
    (hj : j < hdr.numSectors.toNat)
    (hNe : i ≠ j) :
    hdr.sectorAt i ≠ hdr.sectorAt j := by
  intro hEq
  apply hNe
  exact List.inj_on_of_nodup_map hNodup
    (List.mem_range.mpr hi) (List.mem_range.mpr hj) hEq

/- A table lookup inside the file finds its sector. -/
theorem WellFormed.byteToSector_eq
    (hWf : hdr.WellFormed)
    {i : Nat}
    (hi : i < hdr.numSectors.toNat) :
    hdr.byteToSector ((i * SectorSize : Nat) : Int) =
      some (hdr.sectorAt i : Int) := by
  have hDirect : i < NumDirect :=
    Nat.lt_of_lt_of_le hi hWf.numSectors_le
  have hIndex :
      divRoundDown ((i * SectorSize : Nat) : Int)
        SectorSize = (i : Int) := by
    rw [divRoundDown_natCast]
    simp
  have hRange : (0 : Int) ≤ i ∧ (i : Int) < NumDirect := by
    omega
  have hSector := hWf.sector_lt i hi
  have hValue :
      (hdr.dataSectors ⟨i, hDirect⟩).toNat =
        hdr.sectorAt i := by
    simp [sectorAt, hDirect]
  unfold byteToSector
  simp only [hIndex, hRange, and_self, dif_pos,
    Int.toNat_natCast]
  rw [toInt_eq_toNat, hValue]
  rw [hValue]
  simp only [NumSectors, SectorsPerTrack, NumTracks]
    at hSector
  omega

end FileHeader

namespace Disk

/- Byte `p` of the file described by a header. -/
def fileByte
    (disk : Disk)
    (hdr : FileHeader)
    (p : Nat) :
    Byte :=
  disk.byteAt (hdr.sectorAt (p / SectorSize))
    (p % SectorSize)

/- The contents of the file described by a header. -/
def contents
    (disk : Disk)
    (hdr : FileHeader) :
    List Byte :=
  (List.range hdr.length).map (disk.fileByte hdr)

@[simp] theorem length_contents
    (disk : Disk)
    (hdr : FileHeader) :
    (disk.contents hdr).length = hdr.length := by
  simp [contents]

end Disk

end Nachos

------------------------------------
-- Headers of One File
------------------------------------

namespace Nachos

namespace FileHeader

/- Headers that may differ in unused entries only. -/
structure Same
    (hdr hdr' : FileHeader) : Prop where
  length_eq : hdr'.length = hdr.length
  sectors_eq : hdr'.sectors = hdr.sectors

variable {hdr hdr' : FileHeader}

theorem length_sectors_eq
    (hdr : FileHeader) :
    hdr.sectors.length = hdr.numSectors.toNat := by
  rw [sectors, List.length_map, List.length_range]

namespace Same

theorem refl
    (hdr : FileHeader) :
    hdr.Same hdr :=
  ⟨rfl, rfl⟩

theorem numSectors_eq
    (hSame : hdr.Same hdr') :
    hdr'.numSectors = hdr.numSectors := by
  apply BitVec.eq_of_toNat_eq
  rw [← length_sectors_eq, ← length_sectors_eq,
    hSame.sectors_eq]

theorem sectorAt_eq
    (hSame : hdr.Same hdr')
    {k : Nat}
    (hk : k < hdr.numSectors.toNat) :
    hdr'.sectorAt k = hdr.sectorAt k := by
  have hk' : k < hdr'.numSectors.toNat := by
    rwa [hSame.numSectors_eq]
  have hEntry := congrArg (·[k]?) hSame.sectors_eq
  simpa only [sectors, List.getElem?_map,
    List.getElem?_range hk, List.getElem?_range hk',
    Option.map_some, Option.some.injEq] using hEntry

theorem wellFormed
    (hSame : hdr.Same hdr')
    (hWf : hdr.WellFormed) :
    hdr'.WellFormed where
  length_le := by
    rw [hSame.length_eq]
    exact hWf.length_le
  numSectors_eq := by
    rw [hSame.numSectors_eq, hSame.length_eq]
    exact hWf.numSectors_eq
  sector_lt := by
    intro i hi
    rw [hSame.numSectors_eq] at hi
    rw [hSame.sectorAt_eq hi]
    exact hWf.sector_lt i hi

theorem fileByte_eq
    (hSame : hdr.Same hdr')
    (hWf : hdr.WellFormed)
    (disk : Disk)
    {q : Nat}
    (hq : q < hdr.length) :
    disk.fileByte hdr' q = disk.fileByte hdr q := by
  rw [Disk.fileByte, Disk.fileByte,
    hSame.sectorAt_eq (hWf.div_lt hq)]

theorem contents_eq
    (hSame : hdr.Same hdr')
    (hWf : hdr.WellFormed)
    (disk : Disk) :
    disk.contents hdr' = disk.contents hdr := by
  rw [Disk.contents, Disk.contents, hSame.length_eq]
  apply List.map_congr_left
  intro q hq
  exact hSame.fileByte_eq hWf disk (List.mem_range.mp hq)

end Same

end FileHeader

end Nachos
