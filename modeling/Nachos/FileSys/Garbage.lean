import Nachos.FileSys.OtherFiles

/-
  Disks that are alike apart from garbage.

  What `new` finds in memory reaches the disk in two places:
  a header is written with its whole table, of which only the
  first entries are in use, and a transfer writes whole
  sectors, also where the file ends inside of its last one.
  Two runs of one call on disks that are alike do the same,
  whatever they find in memory, and the disks differ only in
  such bytes afterwards.

  Main declarations:
    * `Garbage`
    * `Disk.SameApartFrom`
    * `FileSystem.create_same`
    * `FileSystem.remove_same`
    * `OpenFile.writeAt_same`
-/

------------------------------------
-- Bytes of a File's Sectors
------------------------------------

namespace Nachos

open Bytes

namespace FileHeader

/-
  Is this byte behind the end of the file, in a sector of the
  file?
-/
def Slack
    (hdr : FileHeader)
    (s offset : Nat) : Prop :=
  ∃ k < hdr.numSectors.toNat,
    s = hdr.sectorAt k ∧
      hdr.length ≤ k * SectorSize + offset

/- Does this byte hold one of `n` bytes from `p` on? -/
def Within
    (hdr : FileHeader)
    (p n s offset : Nat) : Prop :=
  ∃ q, p ≤ q ∧ q < p + n ∧
    s = hdr.sectorAt (q / SectorSize) ∧
      offset = q % SectorSize

/- The part of a header that describes the file. -/
def usedSize
    (size : Nat) :
    Nat :=
  4 * (sectorsFor size + 2)

variable {hdr hdr' : FileHeader}

/- Every other byte of the file's sectors has a position. -/
theorem exists_position
    {s offset : Nat}
    (hs : s ∈ hdr.sectors)
    (hOffset : offset < SectorSize)
    (hSlack : ¬ hdr.Slack s offset) :
    ∃ q < hdr.length,
      s = hdr.sectorAt (q / SectorSize) ∧
        offset = q % SectorSize := by
  rcases List.mem_map.mp hs with ⟨k, hk, rfl⟩
  have hIn : k * SectorSize + offset < hdr.length := by
    by_contra hOut
    exact hSlack
      ⟨k, List.mem_range.mp hk, rfl, not_lt.mp hOut⟩
  refine ⟨k * SectorSize + offset, hIn, ?_, ?_⟩
  · rw [show (k * SectorSize + offset) / SectorSize = k by
      simp only [SectorSize] at hOffset ⊢
      omega]
  · simp only [SectorSize] at hOffset ⊢
    omega

namespace Same

/- The words in use are equal. -/
theorem words_eq
    (hSame : hdr.Same hdr')
    {i : Fin (NumDirect + 2)}
    (hi : i.1 < hdr.numSectors.toNat + 2) :
    words hdr' i = words hdr i := by
  induction i using Fin.cases with
  | zero => exact BitVec.eq_of_toNat_eq hSame.length_eq
  | succ i =>
      induction i using Fin.cases with
      | zero => exact hSame.numSectors_eq
      | succ k =>
          rw [Fin.val_succ, Fin.val_succ] at hi
          have hEntry := hSame.sectorAt_eq
            (show k.1 < hdr.numSectors.toNat by omega)
          rw [sectorAt, sectorAt, dif_pos k.2, dif_pos k.2]
            at hEntry
          exact BitVec.eq_of_toNat_eq hEntry

/- So the part of the sector that describes the file is. -/
theorem image_eq
    (hSame : hdr.Same hdr')
    (offset : Fin SectorSize)
    (hOffset :
      offset.1 < 4 * (hdr.numSectors.toNat + 2)) :
    image hdr' offset = image hdr offset := by
  have hWord :
      words hdr' (Fin.divNat (n := 4) offset) =
        words hdr (Fin.divNat (n := 4) offset) := by
    apply hSame.words_eq
    rw [Fin.coe_divNat]
    omega
  exact congrArg
    (fun w => wordImage w
      (Fin.modNat (m := NumDirect + 2) (n := 4) offset))
    hWord

end Same

end FileHeader

end Nachos

------------------------------------
-- Disks That Are Alike
------------------------------------

namespace Nachos

open Bytes

/- Bytes, by sector and offset, that hold no data. -/
abbrev Garbage :=
  Nat → Nat → Prop

namespace Disk

variable {s offset : Nat}

/-
  Both disks hold the same files, and apart from garbage they
  hold the same bytes.
-/
structure SameApartFrom
    (disk disk' : Disk)
    (garbage : Garbage) : Prop where
  directory_eq : disk'.directory = disk.directory
  freeMap_eq : disk'.freeMap = disk.freeMap
  header_same :
    ∀ f ∈ disk.fileSectors,
      (disk.headerAt f).Same (disk'.headerAt f)
  byte_eq :
    ∀ s offset, ¬ garbage s offset →
      disk'.byteAt s offset = disk.byteAt s offset

variable {disk disk' : Disk}

theorem byteAt_of_le
    (disk : Disk)
    (s : Nat)
    {offset : Nat}
    (hOffset : SectorSize ≤ offset) :
    disk.byteAt s offset = 0 := by
  rw [byteAt, dif_neg]
  exact fun hIn => Nat.not_lt.mpr hOffset hIn.2

/- The free map follows from the files. -/
theorem Consistent.freeMap_eq
    (hDisk : disk.Consistent)
    (hDisk' : disk'.Consistent)
    (hDirectory : disk'.directory = disk.directory)
    (hHeaders :
      ∀ f ∈ disk.fileSectors,
        (disk.headerAt f).Same (disk'.headerAt f)) :
    disk'.freeMap = disk.freeMap := by
  have hOwned : disk'.owned = disk.owned := by
    rw [owned, owned, fileSectors, hDirectory]
    refine List.flatMap_congr fun f hf => ?_
    rw [sectorsOf, sectorsOf, (hHeaders f hf).sectors_eq]
  apply BitMap.ext_bit
  apply hDisk.bit_eq hDisk'
  intro s
  rw [hOwned]

/- Files that store the same value hold the same bytes. -/
theorem byteAt_eq_of_stored_eq
    {α : Type}
    {n : Nat}
    {image : α ≃ (Fin n → Byte)}
    {hdr hdr' : FileHeader}
    (hWf : hdr.WellFormed)
    (hSame : hdr.Same hdr')
    (hLength : hdr.length = n)
    (hStored :
      disk'.stored image hdr' = disk.stored image hdr)
    (hs : s ∈ hdr.sectors)
    (hSlack : ¬ hdr.Slack s offset) :
    disk'.byteAt s offset = disk.byteAt s offset := by
  by_cases hOffset : offset < SectorSize
  · rcases FileHeader.exists_position hs hOffset hSlack with
      ⟨q, hq, rfl, rfl⟩
    have hBytes := image.symm.injective hStored
    have hByte := congrFun hBytes ⟨q, hLength ▸ hq⟩
    rwa [hSame.fileByte_eq hWf disk' hq] at hByte
  · rw [byteAt_of_le _ _ (not_lt.mp hOffset),
      byteAt_of_le _ _ (not_lt.mp hOffset)]

/- The free map fills its sector. -/
theorem Consistent.not_slack_freeMap
    (hDisk : disk.Consistent)
    (hOffset : offset < SectorSize) :
    ¬ (disk.headerAt FreeMapSector).Slack s offset := by
  rintro ⟨k, hk, _, hLe⟩
  have hWf := hDisk.wellFormed _ disk.freeMapSector_mem
  rw [hWf.numSectors_eq] at hk
  rw [hDisk.freeMap_length] at hk hLe
  simp only [FreeMapFileSize, NumSectors, SectorsPerTrack,
    NumTracks, BitsInByte, SectorSize] at *
  omega

/- Equal tables are equal bytes, but for the slack. -/
theorem Consistent.byteAt_tables
    (hDisk : disk.Consistent)
    (hDirectory : disk'.directory = disk.directory)
    (hFreeMap : disk'.freeMap = disk.freeMap)
    (hHeaders :
      ∀ f ∈ disk.fileSectors,
        (disk.headerAt f).Same (disk'.headerAt f))
    (hs :
      s ∈ (disk.headerAt FreeMapSector).sectors ∨
        s ∈ (disk.headerAt DirectorySector).sectors)
    (hSlack :
      ¬ (disk.headerAt DirectorySector).Slack s offset) :
    disk'.byteAt s offset = disk.byteAt s offset := by
  rcases hs with hs | hs
  · by_cases hOffset : offset < SectorSize
    · exact byteAt_eq_of_stored_eq
        (hDisk.wellFormed _ disk.freeMapSector_mem)
        (hHeaders _ disk.freeMapSector_mem)
        hDisk.freeMap_length hFreeMap hs
        (hDisk.not_slack_freeMap hOffset)
    · rw [byteAt_of_le _ _ (not_lt.mp hOffset),
        byteAt_of_le _ _ (not_lt.mp hOffset)]
  · exact byteAt_eq_of_stored_eq
      (hDisk.wellFormed _ disk.directorySector_mem)
      (hHeaders _ disk.directorySector_mem)
      hDisk.directory_length hDirectory hs hSlack

end Disk

end Nachos

------------------------------------
-- Creating and Removing on Both Disks
------------------------------------

namespace Nachos

open Bytes

namespace Garbage

/- The directory is written with the slack of its file. -/
def afterTables
    (garbage : Garbage)
    (disk : Disk) :
    Garbage :=
  fun s offset =>
    garbage s offset ∨
      (disk.headerAt DirectorySector).Slack s offset

/- So is the whole table of the header of a new file. -/
def afterCreate
    (garbage : Garbage)
    (disk : Disk)
    (size : Nat) :
    Garbage :=
  fun s offset =>
    if s = disk.freeMap.find.1.toNat then
      FileHeader.usedSize size ≤ offset
    else
      garbage.afterTables disk s offset

end Garbage

namespace Disk

variable {disk disk' : Disk}

theorem image_headerAt
    (disk : Disk)
    (f : Nat)
    (offset : Fin SectorSize) :
    FileHeader.image (disk.headerAt f) offset =
      disk.byteAt f offset := by
  rw [headerAt, Equiv.apply_symm_apply]

/- Headers of one file are equal bytes, as far as in use. -/
theorem byteAt_eq_of_same
    {f : Nat}
    (hSame : (disk.headerAt f).Same (disk'.headerAt f))
    {offset : Nat}
    (hUsed :
      offset < 4 * ((disk.headerAt f).numSectors.toNat + 2)) :
    disk'.byteAt f offset = disk.byteAt f offset := by
  by_cases hOffset : offset < SectorSize
  · have hByte := hSame.image_eq ⟨offset, hOffset⟩ hUsed
    rwa [image_headerAt, image_headerAt] at hByte
  · rw [byteAt_of_le _ _ (not_lt.mp hOffset),
      byteAt_of_le _ _ (not_lt.mp hOffset)]

theorem fileSectors_eq
    (hDirectory : disk'.directory = disk.directory) :
    disk'.fileSectors = disk.fileSectors := by
  rw [fileSectors, fileSectors, hDirectory]

end Disk

theorem FileHeader.Slack.mem_sectors
    {hdr : FileHeader}
    {s offset : Nat}
    (hSlack : hdr.Slack s offset) :
    s ∈ hdr.sectors := by
  rcases hSlack with ⟨k, hk, rfl, _⟩
  exact hdr.sectorAt_mem_sectors hk

namespace FileSystem

variable {fs fs' : FileSystem}
variable {disk disk' : Disk}
variable {garbage : Garbage}
variable {name : CString}

/- Outside of the tables the bytes have to be compared. -/
theorem sameApartFrom_of_plain
    (hDisk : disk.Consistent)
    (hMounted : fs.MountedOn disk)
    (hDisk' : disk'.Consistent)
    (hMounted' : fs'.MountedOn disk')
    (hDirectory : disk'.directory = disk.directory)
    (hHeaders :
      ∀ f ∈ disk.fileSectors,
        (disk.headerAt f).Same (disk'.headerAt f))
    (hSlack :
      ∀ s offset,
        (disk.headerAt DirectorySector).Slack s offset →
          garbage s offset)
    (hPlain :
      ∀ s offset, fs.IsPlain s → fs'.IsPlain s →
        ¬ garbage s offset →
        disk'.byteAt s offset = disk.byteAt s offset) :
    disk.SameApartFrom disk' garbage := by
  have hFreeMap := hDisk.freeMap_eq hDisk' hDirectory hHeaders
  refine ⟨hDirectory, hFreeMap, hHeaders, ?_⟩
  intro s offset hClean
  have hMapSectors :=
    (hHeaders _ disk.freeMapSector_mem).sectors_eq
  have hDirSectors :=
    (hHeaders _ disk.directorySector_mem).sectors_eq
  by_cases hTables :
      s ∈ (disk.headerAt FreeMapSector).sectors ∨
        s ∈ (disk.headerAt DirectorySector).sectors
  · exact hDisk.byteAt_tables hDirectory hFreeMap hHeaders
      hTables fun hIn => hClean (hSlack s offset hIn)
  · rw [not_or] at hTables
    apply hPlain s offset
      (isPlain_of_not_mem hMounted hTables.1 hTables.2)
      ?_ hClean
    apply isPlain_of_not_mem hMounted'
    · rw [hMapSectors]
      exact hTables.1
    · rw [hDirSectors]
      exact hTables.2

/- The new file is the same one on both disks. -/
theorem created_same
    {i : Fin NumSectors}
    {rest : List (Fin NumSectors)}
    {j : Fin NumDirEntries}
    {size : Nat}
    (hDisk : disk.Consistent)
    (hMounted : fs.MountedOn disk)
    (hDisk' : disk'.Consistent)
    (hMounted' : fs'.MountedOn disk')
    (hSame : disk.SameApartFrom disk' garbage)
    (memory memory' : Memory)
    (hSize : size ≤ MaxFileSize)
    (hAbsent : disk.directory.findIndex name = none)
    (hFree : disk.freeMap.freeBits = i :: rest)
    (hEntry : disk.directory.freeIndex = some j)
    (hRoom : FileHeader.sectorsFor size ≤ rest.length) :
    ∃ disk₁ disk₁',
      fs.create memory disk name size =
        some (true, disk₁) ∧
      fs'.create memory' disk' name size =
        some (true, disk₁') ∧
      disk₁.SameApartFrom disk₁'
        (garbage.afterCreate disk size) := by
  have hDirectory := hSame.directory_eq
  rcases create_spec hDisk hMounted memory hSize hAbsent
      hFree hEntry hRoom with
    ⟨disk₁, hRun, _, hDisk₁, hMounted₁, hDir, hLength,
      hSectors, hOld, hFrame⟩
  rcases create_spec hDisk' hMounted' memory' hSize
      (by rw [hDirectory]; exact hAbsent)
      (by rw [hSame.freeMap_eq]; exact hFree)
      (by rw [hDirectory]; exact hEntry) hRoom with
    ⟨disk₁', hRun', _, hDisk₁', hMounted₁', hDir', hLength',
      hSectors', hOld', hFrame'⟩
  rw [hDirectory, ← hDir] at hDir'
  have hFiles' := Disk.fileSectors_eq hDirectory
  have hFirst : disk.freeMap.find.1.toNat = i.1 := by
    rw [BitMap.find_of_freeBits_eq_cons hFree]
    rfl
  have hNew : (disk₁.headerAt i).Same (disk₁'.headerAt i) :=
    ⟨hLength'.trans hLength.symm,
      hSectors'.trans hSectors.symm⟩
  -- a file of the new directory is the new one or an old one
  have hFiles : ∀ f ∈ disk₁.fileSectors,
      f = i.1 ∨ f ∈ disk.fileSectors := by
    intro f hf
    have hPerm := ((Directory.fileSectors_set_assign hEntry
      name i.2).cons DirectorySector).cons FreeMapSector
    rw [Disk.fileSectors, hDir, hPerm.mem_iff] at hf
    simp only [Disk.fileSectors, List.mem_cons] at hf ⊢
    rcases hf with hMap | hDirectory | hNew | hOld
    · exact Or.inr (Or.inl hMap)
    · exact Or.inr (Or.inr (Or.inl hDirectory))
    · exact Or.inl hNew
    · exact Or.inr (Or.inr (Or.inr hOld))
  have hHeaders : ∀ f ∈ disk₁.fileSectors,
      (disk₁.headerAt f).Same (disk₁'.headerAt f) := by
    intro f hf
    rcases hFiles f hf with rfl | hf
    · exact hNew
    · rw [hOld f hf, hOld' f (by rwa [hFiles'])]
      exact hSame.header_same f hf
  have hIn : i.1 ∈ disk₁.fileSectors := by
    apply Disk.mem_fileSectors_of_mem
    rw [hDir, (Directory.fileSectors_set_assign hEntry name
      i.2).mem_iff]
    exact List.mem_cons_self
  refine ⟨disk₁, disk₁', hRun, hRun',
    sameApartFrom_of_plain hDisk₁ hMounted₁ hDisk₁'
      hMounted₁' hDir' hHeaders ?_ ?_⟩
  · intro s offset hSlack
    have hNe : s ≠ i.1 := by
      rintro rfl
      exact hDisk₁.separate.header_not_mem hIn
        disk₁.directorySector_mem hSlack.mem_sectors
    rw [hOld _ disk.directorySector_mem] at hSlack
    rw [Garbage.afterCreate, hFirst, if_neg hNe]
    exact Or.inr hSlack
  · intro s offset hPlain hPlain' hClean
    rw [Garbage.afterCreate, hFirst] at hClean
    by_cases hNe : s = i.1
    · rw [if_pos hNe, not_le] at hClean
      rw [hNe]
      apply Disk.byteAt_eq_of_same hNew
      rw [(hDisk₁.wellFormed _ hIn).numSectors_eq, hLength]
      exact hClean
    · rw [if_neg hNe, Garbage.afterTables, not_or] at hClean
      rw [hFrame' s hNe hPlain', hFrame s hNe hPlain]
      exact hSame.byte_eq s offset hClean.1

/- Creating a file does the same on both disks. -/
theorem create_same
    (hDisk : disk.Consistent)
    (hMounted : fs.MountedOn disk)
    (hDisk' : disk'.Consistent)
    (hMounted' : fs'.MountedOn disk')
    (hSame : disk.SameApartFrom disk' garbage)
    (memory memory' : Memory)
    (name : CString)
    {size : Nat}
    (hSize : size ≤ MaxFileSize) :
    ∃ ok disk₁ disk₁',
      fs.create memory disk name size =
        some (ok, disk₁) ∧
      fs'.create memory' disk' name size =
        some (ok, disk₁') ∧
      disk₁.SameApartFrom disk₁'
        (if ok then garbage.afterCreate disk size
          else garbage) := by
  have hDirectory := hSame.directory_eq
  have hFreeMap := hSame.freeMap_eq
  rcases create_cases hDisk hMounted memory name size with
    ⟨hReason, hRun⟩ |
      ⟨i, rest, j, hAbsent, hFree, hEntry, hRoom⟩
  · rcases create_cases hDisk' hMounted' memory' name
        size with
      ⟨_, hRun'⟩ |
        ⟨i, rest, j, hAbsent, hFree, hEntry, hRoom⟩
    · exact ⟨false, disk, disk', hRun, hRun', hSame⟩
    · -- what is missing on one disk is missing on the other
      rw [hDirectory] at hAbsent hEntry
      rw [hFreeMap] at hFree
      have hFind :=
        Directory.find_of_findIndex_eq_none hAbsent
      rw [hFree, List.length_cons, hEntry] at hReason
      rcases hReason with hFound | hNil | hFull | hShort
      · exact absurd hFind hFound
      · exact absurd hNil (Nat.succ_ne_zero _)
      · cases hFull
      · omega
  · rcases created_same hDisk hMounted hDisk' hMounted' hSame
        memory memory' hSize hAbsent hFree hEntry hRoom with
      ⟨disk₁, disk₁', hRun, hRun', hSame'⟩
    exact ⟨true, disk₁, disk₁', hRun, hRun', hSame'⟩

/- Removing a file does the same on both disks. -/
theorem remove_same
    (hDisk : disk.Consistent)
    (hMounted : fs.MountedOn disk)
    (hDisk' : disk'.Consistent)
    (hMounted' : fs'.MountedOn disk')
    (hSame : disk.SameApartFrom disk' garbage)
    (memory memory' : Memory)
    (name : CString) :
    ∃ removed disk₁ disk₁',
      fs.remove memory disk name =
        some (removed, disk₁) ∧
      fs'.remove memory' disk' name =
        some (removed, disk₁') ∧
      disk₁.SameApartFrom disk₁'
        (if removed then garbage.afterTables disk
          else garbage) := by
  have hDirectory := hSame.directory_eq
  cases hFind : disk.directory.findIndex name with
  | none =>
      exact ⟨false, disk, disk',
        remove_of_absent hDisk.tables hMounted memory hFind,
        remove_of_absent hDisk'.tables hMounted' memory'
          (by rw [hDirectory]; exact hFind),
        hSame⟩
  | some i =>
      rcases remove_spec hDisk hMounted memory hFind with
        ⟨disk₁, hRun, hDisk₁, hMounted₁, hDir, hOld, hFrame⟩
      rcases remove_spec hDisk' hMounted' memory'
          (by rw [hDirectory]; exact hFind) with
        ⟨disk₁', hRun', hDisk₁', hMounted₁', hDir', hOld',
          hFrame'⟩
      rw [hDirectory, ← hDir] at hDir'
      have hFiles : ∀ f ∈ disk₁.fileSectors,
          f ∈ disk.fileSectors := by
        intro f hf
        have hPerm := Directory.fileSectors_remove hFind
        simp only [Disk.fileSectors, hDir, List.mem_cons,
          hPerm.mem_iff] at hf ⊢
        rcases hf with hMap | hDirectory | hOld
        · exact Or.inl hMap
        · exact Or.inr (Or.inl hDirectory)
        · exact Or.inr (Or.inr (Or.inr hOld))
      refine ⟨true, disk₁, disk₁', hRun, hRun',
        sameApartFrom_of_plain hDisk₁ hMounted₁ hDisk₁'
          hMounted₁' hDir' ?_ ?_ ?_⟩
      · intro f hf
        have hf := hFiles f hf
        rw [hOld f hf, hOld' f
          (by rwa [Disk.fileSectors_eq hDirectory])]
        exact hSame.header_same f hf
      · intro s offset hSlack
        rw [hOld _ disk.directorySector_mem] at hSlack
        exact Or.inr hSlack
      · intro s offset hPlain hPlain' hClean
        rw [hFrame' s hPlain', hFrame s hPlain]
        apply hSame.byte_eq s offset
        exact fun hIn => hClean (Or.inl hIn)

end FileSystem

end Nachos

------------------------------------
-- Transfers on Both Disks
------------------------------------

namespace Nachos

open Bytes

/-
  A transfer of at least one byte may write the slack of the
  file; the bytes that are transferred are data.
-/
def Garbage.afterWrite
    (garbage : Garbage)
    (hdr : FileHeader)
    (p n : Nat) :
    Garbage :=
  fun s offset =>
    if n = 0 then
      garbage s offset
    else
      (garbage s offset ∨ hdr.Slack s offset) ∧
        ¬ hdr.Within p n s offset

namespace Disk

variable {disk disk' : Disk}
variable {hdr : FileHeader}
variable {source : List Byte}
variable {n : Int}
variable {p : Nat}

/- The bytes that were written. -/
theorem fileByte_of_write
    (hSource :
      FixedArray.count hdr.length n p ≤ source.length)
    (hContents :
      disk'.contents hdr =
        FixedArray.write (disk.contents hdr) source n p)
    {q : Nat}
    (hLow : p ≤ q)
    (hHigh : q < p + FixedArray.count hdr.length n p) :
    some (disk'.fileByte hdr q) = source[q - p]? := by
  have hEnd := FixedArray.add_count_le
    (show 0 < FixedArray.count hdr.length n p by omega)
  have hByte := congrArg (·[q]?) hContents
  rw [getElem?_contents disk' (by omega),
    FixedArray.getElem?_write _ (by rwa [length_contents])
      (by rw [length_contents]; omega),
    length_contents, if_pos ⟨hLow, hHigh⟩] at hByte
  exact hByte

/- The bytes that a write of the file does not reach. -/
theorem byteAt_of_write
    (hSource :
      FixedArray.count hdr.length n p ≤ source.length)
    (hPos : 0 < FixedArray.count hdr.length n p)
    (hContents :
      disk'.contents hdr =
        FixedArray.write (disk.contents hdr) source n p)
    (hFrame : ∀ s ∉ hdr.sectors, disk.Agree disk' s)
    {s offset : Nat}
    (hSlack : ¬ hdr.Slack s offset)
    (hWithin :
      ¬ hdr.Within p (FixedArray.count hdr.length n p) s
        offset) :
    disk'.byteAt s offset = disk.byteAt s offset := by
  by_cases hs : s ∈ hdr.sectors
  · by_cases hOffset : offset < SectorSize
    · rcases FileHeader.exists_position hs hOffset hSlack with
        ⟨q, hq, rfl, rfl⟩
      have hByte := congrArg (·[q]?) hContents
      rw [getElem?_contents disk' hq,
        FixedArray.getElem?_write _ (by rwa [length_contents])
          (by rwa [length_contents]),
        length_contents, if_neg, getElem?_contents disk hq,
        Option.some.injEq] at hByte
      · exact hByte
      · rintro ⟨hLow, hHigh⟩
        exact hWithin ⟨q, hLow, hHigh, rfl, rfl⟩
    · rw [byteAt_of_le _ _ (not_lt.mp hOffset),
        byteAt_of_le _ _ (not_lt.mp hOffset)]
  · exact hFrame s hs offset

end Disk

namespace OpenFile

open FixedArray

variable {file file' : OpenFile}
variable {disk disk' : Disk}
variable {garbage : Garbage}
variable {source : List Byte}
variable {n : Int}
variable {p : Nat}

theorem writeAt_of_count_eq_zero
    (hWf : file.hdr.WellFormed)
    (memory : Memory)
    (disk : Disk)
    (hZero : count file.hdr.length n p = 0) :
    file.writeAt memory disk source n p = some (0, disk) := by
  have hEmpty : n ≤ 0 ∨ (p : Int) ≥ file.hdr.length := by
    unfold count at hZero
    split at hZero <;> omega
  rw [writeAt, hWf.fileLength_eq, if_pos hEmpty]

/- What is written is written to both disks. -/
theorem writeAt_same
    (hHdr : file.hdr.Same file'.hdr)
    (hWf : file.hdr.WellFormed)
    (hNodup : file.hdr.sectors.Nodup)
    (hBytes :
      ∀ s offset, ¬ garbage s offset →
        disk'.byteAt s offset = disk.byteAt s offset)
    (memory memory' : Memory)
    (hSource : n ≤ source.length)
    (hEnd : p + n < 2 ^ 31) :
    ∃ disk₁ disk₁',
      file.writeAt memory disk source n p =
        some ((count file.hdr.length n p : Int), disk₁) ∧
      file'.writeAt memory' disk' source n p =
        some ((count file.hdr.length n p : Int), disk₁') ∧
      ∀ s offset,
        ¬ garbage.afterWrite file.hdr p
          (count file.hdr.length n p) s offset →
        disk₁'.byteAt s offset = disk₁.byteAt s offset := by
  have hWf' := hHdr.wellFormed hWf
  have hLength := hHdr.length_eq
  rcases Nat.eq_zero_or_pos (count file.hdr.length n p) with
    hZero | hPos
  · refine ⟨disk, disk', ?_, ?_, ?_⟩
    · rw [writeAt_of_count_eq_zero hWf memory disk hZero,
        hZero]
      rfl
    · rw [writeAt_of_count_eq_zero hWf' memory' disk'
        (by rwa [hLength]), hZero]
      rfl
    · intro s offset hClean
      rw [Garbage.afterWrite, if_pos hZero] at hClean
      exact hBytes s offset hClean
  · rcases writeAt_spec hWf hNodup memory disk hSource
        hEnd with
      ⟨disk₁, hRun, hContents, hFrame⟩
    rcases writeAt_spec hWf' (by rwa [hHdr.sectors_eq])
        memory' disk' hSource hEnd with
      ⟨disk₁', hRun', hContents', hFrame'⟩
    rw [hLength] at hRun'
    rw [hHdr.contents_eq hWf, hHdr.contents_eq hWf]
      at hContents'
    rw [hHdr.sectors_eq] at hFrame'
    have hEnough : count file.hdr.length n p ≤
        source.length := by
      have hLe := count_le file.hdr.length n p
      omega
    refine ⟨disk₁, disk₁', hRun, hRun', ?_⟩
    intro s offset hClean
    rw [Garbage.afterWrite, if_neg (by omega)] at hClean
    by_cases hWithin : file.hdr.Within p
        (count file.hdr.length n p) s offset
    · rcases hWithin with ⟨q, hLow, hHigh, rfl, rfl⟩
      have hByte := Disk.fileByte_of_write hEnough hContents
        hLow hHigh
      have hByte' := Disk.fileByte_of_write hEnough hContents'
        hLow hHigh
      exact Option.some.inj (hByte'.trans hByte.symm)
    · have hOld : ¬ (garbage s offset ∨
          file.hdr.Slack s offset) :=
        fun hDirty => hClean ⟨hDirty, hWithin⟩
      rw [not_or] at hOld
      rw [Disk.byteAt_of_write hEnough hPos hContents' hFrame'
          hOld.2 hWithin,
        Disk.byteAt_of_write hEnough hPos hContents hFrame
          hOld.2 hWithin]
      exact hBytes s offset hOld.1

/- What is read differs in garbage only. -/
theorem readAt_same
    (hHdr : file.hdr.Same file'.hdr)
    (hWf : file.hdr.WellFormed)
    (hBytes :
      ∀ s offset, ¬ garbage s offset →
        disk'.byteAt s offset = disk.byteAt s offset)
    (memory memory' : Memory)
    (hEnd : p + n < 2 ^ 31) :
    ∃ data data',
      file.readAt memory disk n p =
        some ((count file.hdr.length n p : Int), data) ∧
      file'.readAt memory' disk' n p =
        some ((count file.hdr.length n p : Int), data') ∧
      data'.length = data.length ∧
      ∀ j,
        ¬ garbage
          (file.hdr.sectorAt ((p + j) / SectorSize))
          ((p + j) % SectorSize) →
        data'[j]? = data[j]? := by
  refine ⟨_, FixedArray.read (disk'.contents file.hdr) n p,
    readAt_eq hWf memory disk hEnd, ?_, ?_, ?_⟩
  · rw [readAt_eq (hHdr.wellFormed hWf) memory' disk' hEnd,
      hHdr.length_eq, hHdr.contents_eq hWf]
  · rw [Disk.read_contents, Disk.read_contents,
      List.length_map, List.length_map]
  · intro j hClean
    rw [Disk.read_contents, Disk.read_contents,
      List.getElem?_map, List.getElem?_map]
    by_cases hj : j < count file.hdr.length n p
    · rw [List.getElem?_range hj]
      exact congrArg some (hBytes _ _ hClean)
    · rw [List.getElem?_eq_none (by simpa using hj)]
      rfl

end OpenFile

end Nachos
