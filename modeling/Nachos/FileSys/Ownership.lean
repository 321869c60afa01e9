import Nachos.FileSys.Allocation
import Nachos.FileSys.FileSystem
import Nachos.Lib.Ownership

/-
  Who owns a sector of the disk.

  Every file owns the sector of its header and the data
  sectors that the header lists.  On a consistent disk the
  free map marks exactly the owned sectors, and no sector has
  two owners.

  Main declarations:
    * `Disk.freeMap`
    * `Disk.directory`
    * `FileSystem.writeBack_freeMap`
    * `FileSystem.writeBack_directory`
    * `Disk.Consistent.write`
-/

------------------------------------
-- Marked Sectors
------------------------------------

namespace Nachos

open Ownership

namespace BitMap

variable {numBits : Nat}
variable {m : BitMap numBits}
variable {held : List Nat}

/- Is the bit of this number set? -/
def IsMarked
    (m : BitMap numBits)
    (s : Nat) : Prop :=
  ∃ h : s < numBits, m.bit ⟨s, h⟩ = true

theorem isMarked_val
    (m : BitMap numBits)
    (i : Fin numBits) :
    m.IsMarked i ↔ m.bit i = true := by
  constructor
  · rintro ⟨_, hBit⟩
    exact hBit
  · intro hBit
    exact ⟨i.2, hBit⟩

/- Setting a clear bit gives it a new owner. -/
theorem tracks_setBit
    (hTracks : Tracks m.IsMarked held)
    {i : Fin numBits}
    (hClear : m.bit i = false) :
    Tracks (m.setBit i).IsMarked (i.1 :: held) := by
  have hFree : ∀ s ∈ [i.1], ¬ m.IsMarked s := by
    intro s hs hMarked
    rw [List.mem_singleton] at hs
    subst hs
    rw [isMarked_val, hClear] at hMarked
    exact Bool.noConfusion hMarked
  refine (hTracks.acquire (List.nodup_singleton _)
    hFree).congr ?_
  intro s
  simp only [IsMarked, bit_setBit, Bool.or_eq_true,
    decide_eq_true_eq, Fin.ext_iff, List.mem_singleton]
  constructor
  · rintro ⟨h, hEq | hBit⟩
    · exact Or.inl hEq.symm
    · exact Or.inr ⟨h, hBit⟩
  · rintro (hEq | ⟨h, hBit⟩)
    · subst hEq
      exact ⟨i.2, Or.inl rfl⟩
    · exact ⟨h, Or.inr hBit⟩

/- Clearing an owned bit takes it from its owner. -/
theorem tracks_clearBit
    {i : Fin numBits}
    (hTracks : Tracks m.IsMarked (i.1 :: held)) :
    Tracks (m.clearBit i).IsMarked held := by
  have hOwned : Tracks m.IsMarked ([i.1] ++ held) := hTracks
  refine hOwned.release.congr ?_
  intro s
  simp only [IsMarked, bit_clearBit, Bool.and_eq_true,
    Bool.not_eq_true', decide_eq_false_iff_not,
    Fin.ext_iff, List.mem_singleton]
  constructor
  · rintro ⟨h, hNe, hBit⟩
    exact ⟨Ne.symm hNe, h, hBit⟩
  · rintro ⟨hNe, h, hBit⟩
    exact ⟨h, Ne.symm hNe, hBit⟩

/- Nothing is marked in a fresh bitmap. -/
theorem tracks_create
    (memory : Fin (numWords numBits) → BitVec 32) :
    Tracks (create memory).IsMarked [] where
  nodup := List.nodup_nil
  marked_iff := by
    simp [IsMarked]

end BitMap

namespace FileHeader

variable {freeMap : BitMap NumSectors}
variable {held : List Nat}

/- Allocation gives the taken sectors to the header. -/
theorem allocate_tracks
    (hdr : FileHeader)
    (hTracks : Tracks freeMap.IsMarked held)
    {size : Nat}
    (hSize : size ≤ MaxFileSize)
    (hFree : sectorsFor size ≤ freeMap.freeBits.length) :
    ∃ hdr' freeMap',
      allocate hdr freeMap size =
        some (true, hdr', freeMap') ∧
      hdr'.WellFormed ∧
      hdr'.length = size ∧
      hdr'.sectors =
        (freeMap.freeBits.take (sectorsFor size)).map
          Fin.val ∧
      Tracks freeMap'.IsMarked (hdr'.sectors ++ held) := by
  rcases allocate_spec hdr hSize hFree with
    ⟨hdr', freeMap', hRun, hWf, hLength, hSectors, hBits⟩
  refine ⟨hdr', freeMap', hRun, hWf, hLength, hSectors, ?_⟩
  have hNodup : hdr'.sectors.Nodup := by
    rw [hSectors]
    refine List.Nodup.map Fin.val_injective ?_
    exact freeMap.nodup_freeBits.take
  have hClear : ∀ s ∈ hdr'.sectors,
      ¬ freeMap.IsMarked s := by
    intro s hs
    rw [hSectors] at hs
    rcases List.mem_map.mp hs with ⟨i, hi, rfl⟩
    have hBit := (freeMap.mem_freeBits_iff i).mp
      (List.mem_of_mem_take hi)
    rw [BitMap.isMarked_val, hBit]
    exact Bool.noConfusion
  refine (hTracks.acquire hNodup hClear).congr ?_
  intro s
  simp only [BitMap.IsMarked, hBits, Bool.or_eq_true,
    decide_eq_true_eq]
  constructor
  · rintro ⟨h, hMem | hBit⟩
    · exact Or.inl hMem
    · exact Or.inr ⟨h, hBit⟩
  · rintro (hMem | ⟨h, hBit⟩)
    · exact ⟨hWf.sector_lt_of_mem hMem, Or.inl hMem⟩
    · exact ⟨h, Or.inr hBit⟩

/- Deallocation never fails on owned sectors. -/
theorem deallocate_tracks
    {hdr : FileHeader}
    (hWf : hdr.WellFormed)
    (hTracks :
      Tracks freeMap.IsMarked (hdr.sectors ++ held)) :
    ∃ freeMap',
      deallocate hdr freeMap = some freeMap' ∧
      Tracks freeMap'.IsMarked held := by
  have hNodup : hdr.sectors.Nodup :=
    (List.nodup_append'.mp hTracks.nodup).1
  have hMarked : ∀ j : Fin NumSectors,
      j.1 ∈ hdr.sectors → freeMap.bit j = true := by
    intro j hj
    rw [← BitMap.isMarked_val, hTracks.marked_iff]
    exact List.mem_append_left _ hj
  rcases deallocate_spec hWf hNodup hMarked with
    ⟨freeMap', hRun, hBits⟩
  refine ⟨freeMap', hRun, hTracks.release.congr ?_⟩
  intro s
  simp only [BitMap.IsMarked, hBits, Bool.and_eq_true,
    Bool.not_eq_true', decide_eq_false_iff_not]
  constructor
  · rintro ⟨h, hNot, hBit⟩
    exact ⟨hNot, h, hBit⟩
  · rintro ⟨hNot, h, hBit⟩
    exact ⟨h, hNot, hBit⟩

end FileHeader

end Nachos

------------------------------------
-- Files in the Directory
------------------------------------

namespace Nachos

namespace Directory

variable {tableSize : Nat}
variable {d : Directory tableSize}
variable {i : Fin tableSize}

/- The header sectors of the entries in use. -/
def fileSectors
    (d : Directory tableSize) :
    List Nat :=
  ((List.finRange tableSize).filter fun i =>
    (d.table i).isInUse).map fun i =>
      (d.table i).sector.toNat

theorem mem_fileSectors_iff
    (d : Directory tableSize)
    (s : Nat) :
    s ∈ d.fileSectors ↔
      ∃ i, (d.table i).isInUse = true ∧
        (d.table i).sector.toNat = s := by
  simp [fileSectors]

/- Filling an unused entry adds one file. -/
theorem fileSectors_set
    (hUnused : (d.table i).isInUse = false)
    {e : DirectoryEntry}
    (hUsed : e.isInUse = true) :
    (d.set i e).fileSectors.Perm
      (e.sector.toNat :: d.fileSectors) := by
  have hMem : i ∈ List.finRange tableSize :=
    List.mem_finRange i
  have hSplit := List.perm_cons_erase hMem
  -- the entries other than `i` are the same in both tables
  have hOthers : ∀ j ∈ (List.finRange tableSize).erase i,
      (d.set i e).table j = d.table j := by
    intro j hj
    have hNe : j ≠ i :=
      ((List.nodup_finRange tableSize).mem_erase_iff.mp hj).1
    simp [set, Function.update_of_ne hNe]
  have hNew : (d.set i e).table i = e := by
    simp [set]
  have hPerm := (hSplit.filter fun j =>
    ((d.set i e).table j).isInUse).map fun j =>
      ((d.set i e).table j).sector.toNat
  have hPerm' := (hSplit.filter fun j =>
    (d.table j).isInUse).map fun j =>
      (d.table j).sector.toNat
  rw [List.filter_cons_of_pos (by rw [hNew]; exact hUsed),
    List.map_cons, hNew] at hPerm
  rw [List.filter_cons_of_neg (by simp [hUnused])] at hPerm'
  refine hPerm.trans (List.Perm.cons _ ?_)
  refine List.Perm.trans (List.Perm.of_eq ?_) hPerm'.symm
  rw [List.filter_congr fun j hj => by rw [hOthers j hj]]
  apply List.map_congr_left
  intro j hj
  rw [hOthers j (List.mem_of_mem_filter hj)]

/- A name is found at an entry in use. -/
theorem findIndex_eq_some
    {name : CString}
    (hFind : d.findIndex name = some i) :
    (d.table i).isNamed name = true ∧
      (d.table i).isInUse = true := by
  have hNamed : (d.table i).isNamed name = true :=
    List.find?_some
      (p := fun i => (d.table i).isNamed name) hFind
  refine ⟨hNamed, ?_⟩
  rw [DirectoryEntry.isNamed, Bool.and_eq_true] at hNamed
  exact hNamed.1

/- Removing a name takes one file out of the directory. -/
theorem fileSectors_remove
    {name : CString}
    (hFind : d.findIndex name = some i) :
    d.fileSectors.Perm
      ((d.table i).sector.toNat ::
        (d.remove name).2.fileSectors) := by
  have hUsed := (findIndex_eq_some hFind).2
  have hRestore :
      (d.remove name).2.set i (d.table i) = d := by
    simp [remove, hFind, set]
  have hUnused :
      ((d.remove name).2.table i).isInUse = false := by
    simp [remove, hFind, set, DirectoryEntry.isInUse]
  have hPerm := fileSectors_set hUnused hUsed
  rwa [hRestore] at hPerm

end Directory

end Nachos

------------------------------------
-- Owned Sectors
------------------------------------

namespace Nachos

open Ownership

namespace Disk

/- The header stored in a sector. -/
def headerAt
    (disk : Disk)
    (s : Nat) :
    FileHeader :=
  FileHeader.image.symm fun i => disk.byteAt s i

/- The free map as it is stored on disk. -/
def freeMap
    (disk : Disk) :
    BitMap NumSectors :=
  disk.stored BitMap.image (disk.headerAt FreeMapSector)

/- The directory as it is stored on disk. -/
def directory
    (disk : Disk) :
    Directory NumDirEntries :=
  disk.stored Directory.image (disk.headerAt DirectorySector)

/- The header sectors of all files, system files first. -/
def fileSectors
    (disk : Disk) :
    List Nat :=
  FreeMapSector :: DirectorySector ::
    disk.directory.fileSectors

/- What the file with its header in sector `s` owns. -/
def sectorsOf
    (disk : Disk)
    (s : Nat) :
    List Nat :=
  s :: (disk.headerAt s).sectors

/- The sectors of all files. -/
def owned
    (disk : Disk) :
    List Nat :=
  disk.fileSectors.flatMap disk.sectorsOf

/-
  Files given by their header sectors: well formed, with no
  sector used twice.
-/
structure Separate
    (disk : Disk)
    (files : List Nat) : Prop where
  wellFormed : ∀ s ∈ files, (disk.headerAt s).WellFormed
  nodup : (files.flatMap disk.sectorsOf).Nodup

/- The ownership invariant of the file system. -/
structure Consistent
    (disk : Disk) : Prop where
  wellFormed :
    ∀ s ∈ disk.fileSectors, (disk.headerAt s).WellFormed
  freeMap_length :
    (disk.headerAt FreeMapSector).length = FreeMapFileSize
  directory_length :
    (disk.headerAt DirectorySector).length =
      DirectoryFileSize
  tracks : Tracks disk.freeMap.IsMarked disk.owned

theorem freeMapSector_mem
    (disk : Disk) :
    FreeMapSector ∈ disk.fileSectors := by
  simp [fileSectors]

theorem directorySector_mem
    (disk : Disk) :
    DirectorySector ∈ disk.fileSectors := by
  simp [fileSectors]

/- Do two disks hold the same bytes in a sector? -/
def Agree
    (disk disk' : Disk)
    (s : Nat) : Prop :=
  ∀ offset, disk'.byteAt s offset = disk.byteAt s offset

/-
  From one disk to the next nothing changed but bytes in the
  data sectors of the file with its header in sector `f`.
-/
structure ChangesOnly
    (disk disk' : Disk)
    (f : Nat) : Prop where
  outside :
    ∀ s ∉ (disk.headerAt f).sectors, disk.Agree disk' s
  freeMap_eq : disk'.freeMap = disk.freeMap
  directory_eq : disk'.directory = disk.directory
  header_eq :
    ∀ s ∈ disk.fileSectors,
      disk'.headerAt s = disk.headerAt s
  contents_eq :
    ∀ s ∈ disk.fileSectors, s ≠ f →
      disk'.contents (disk.headerAt s) =
        disk.contents (disk.headerAt s)

variable {disk disk' : Disk}

theorem Agree.trans
    {disk'' : Disk}
    {s : Nat}
    (hFirst : disk.Agree disk' s)
    (hSecond : disk'.Agree disk'' s) :
    disk.Agree disk'' s :=
  fun offset => (hSecond offset).trans (hFirst offset)

theorem headerAt_congr
    {s : Nat}
    (hAgree : disk.Agree disk' s) :
    disk'.headerAt s = disk.headerAt s := by
  unfold headerAt
  congr 1
  funext i
  exact hAgree i

/- Contents depend on the listed sectors only. -/
theorem contents_congr
    {hdr : FileHeader}
    (hWf : hdr.WellFormed)
    (hAgree : ∀ s ∈ hdr.sectors, disk.Agree disk' s) :
    disk'.contents hdr = disk.contents hdr := by
  apply List.map_congr_left
  intro p hp
  have hIn := hWf.div_lt (List.mem_range.mp hp)
  exact hAgree _ (hdr.sectorAt_mem_sectors hIn) _

theorem stored_congr
    {α : Type}
    {n : Nat}
    (image : α ≃ (Fin n → Bytes.Byte))
    {hdr : FileHeader}
    (hWf : hdr.WellFormed)
    (hLength : hdr.length = n)
    (hAgree : ∀ s ∈ hdr.sectors, disk.Agree disk' s) :
    disk'.stored image hdr = disk.stored image hdr :=
  stored_eq_of_contents_eq image hLength.ge
    (contents_congr hWf hAgree)

end Disk

end Nachos

------------------------------------
-- The System Files
------------------------------------

namespace Nachos

open Ownership

namespace Disk

/-
  The files of the free map and the directory are in order,
  whatever they hold.
-/
structure TablesWellFormed
    (disk : Disk) : Prop where
  freeMap_wellFormed :
    (disk.headerAt FreeMapSector).WellFormed
  directory_wellFormed :
    (disk.headerAt DirectorySector).WellFormed
  freeMap_length :
    (disk.headerAt FreeMapSector).length = FreeMapFileSize
  directory_length :
    (disk.headerAt DirectorySector).length =
      DirectoryFileSize
  nodup :
    (disk.sectorsOf FreeMapSector ++
      disk.sectorsOf DirectorySector).Nodup

variable {disk disk' : Disk}

theorem Consistent.tables
    (hDisk : disk.Consistent) :
    disk.TablesWellFormed where
  freeMap_wellFormed :=
    hDisk.wellFormed _ disk.freeMapSector_mem
  directory_wellFormed :=
    hDisk.wellFormed _ disk.directorySector_mem
  freeMap_length := hDisk.freeMap_length
  directory_length := hDisk.directory_length
  nodup := by
    have hNodup := hDisk.tracks.nodup
    simp only [owned, fileSectors, List.flatMap_cons,
      ← List.append_assoc] at hNodup
    exact (List.nodup_append'.mp hNodup).1

namespace TablesWellFormed

theorem of_headers
    (hTables : disk.TablesWellFormed)
    (hFreeMap :
      disk'.headerAt FreeMapSector =
        disk.headerAt FreeMapSector)
    (hDirectory :
      disk'.headerAt DirectorySector =
        disk.headerAt DirectorySector) :
    disk'.TablesWellFormed where
  freeMap_wellFormed := by
    rw [hFreeMap]
    exact hTables.freeMap_wellFormed
  directory_wellFormed := by
    rw [hDirectory]
    exact hTables.directory_wellFormed
  freeMap_length := by
    rw [hFreeMap]
    exact hTables.freeMap_length
  directory_length := by
    rw [hDirectory]
    exact hTables.directory_length
  nodup := by
    rw [sectorsOf, sectorsOf, hFreeMap, hDirectory]
    exact hTables.nodup

/- The free map depends on the sectors of its file. -/
theorem freeMap_congr
    (hTables : disk.TablesWellFormed)
    (hAgree :
      ∀ s ∈ disk.sectorsOf FreeMapSector,
        disk.Agree disk' s) :
    disk'.freeMap = disk.freeMap := by
  rw [freeMap, headerAt_congr (hAgree _ List.mem_cons_self)]
  refine stored_congr _ hTables.freeMap_wellFormed
    hTables.freeMap_length ?_
  exact fun s hs => hAgree s (List.mem_cons_of_mem _ hs)

/- The directory depends on the sectors of its file. -/
theorem directory_congr
    (hTables : disk.TablesWellFormed)
    (hAgree :
      ∀ s ∈ disk.sectorsOf DirectorySector,
        disk.Agree disk' s) :
    disk'.directory = disk.directory := by
  rw [directory,
    headerAt_congr (hAgree _ List.mem_cons_self)]
  refine stored_congr _ hTables.directory_wellFormed
    hTables.directory_length ?_
  exact fun s hs => hAgree s (List.mem_cons_of_mem _ hs)

end TablesWellFormed

end Disk

/-
  Storing a table in the file at sector `s` leaves the header
  of that file and everything of the file at `t` alone.
-/
theorem OpenFile.storeImage_frame
    {α : Type}
    {n s t : Nat}
    {file : OpenFile}
    {disk : Disk}
    (hHdr : file.hdr = disk.headerAt s)
    (hWf : (disk.headerAt s).WellFormed)
    (hLength : (disk.headerAt s).length = n)
    (hNodup : (disk.sectorsOf s ++ disk.sectorsOf t).Nodup)
    (image : α ≃ (Fin n → Bytes.Byte))
    (memory : Memory)
    (value : α) :
    ∃ disk',
      file.storeImage image memory disk value = some disk' ∧
      disk'.stored image (disk.headerAt s) = value ∧
      disk.Agree disk' s ∧
      (∀ x ∈ disk.sectorsOf t, disk.Agree disk' x) ∧
      ∀ x ∉ file.hdr.sectors, disk.Agree disk' x := by
  rcases List.nodup_append'.mp hNodup with
    ⟨hOwn, _, hDisjoint⟩
  rcases List.nodup_cons.mp hOwn with ⟨hNot, hTable⟩
  rw [← hHdr] at hWf hLength hTable
  rcases storeImage_spec hWf hTable hLength image memory disk
      value with
    ⟨disk', hRun, hStored, hFrame⟩
  rw [hHdr] at hStored
  refine ⟨disk', hRun, hStored, hFrame s (by rwa [hHdr]), ?_,
    hFrame⟩
  intro x hx
  refine hFrame x fun hMem => ?_
  rw [hHdr] at hMem
  exact hDisjoint (List.mem_cons_of_mem _ hMem) hx

end Nachos

------------------------------------
-- Reading and Writing the Tables
------------------------------------

namespace Nachos

namespace FileSystem

/- The open system files carry the headers on the disk. -/
structure MountedOn
    (fs : FileSystem)
    (disk : Disk) : Prop where
  freeMap_hdr :
    fs.freeMapFile.hdr = disk.headerAt FreeMapSector
  directory_hdr :
    fs.directoryFile.hdr = disk.headerAt DirectorySector

variable {fs : FileSystem}
variable {disk disk' : Disk}

theorem MountedOn.of_headers
    (hMounted : fs.MountedOn disk)
    (hFreeMap :
      disk'.headerAt FreeMapSector =
        disk.headerAt FreeMapSector)
    (hDirectory :
      disk'.headerAt DirectorySector =
        disk.headerAt DirectorySector) :
    fs.MountedOn disk' where
  freeMap_hdr := by
    rw [hFreeMap, hMounted.freeMap_hdr]
  directory_hdr := by
    rw [hDirectory, hMounted.directory_hdr]

theorem fetch_freeMap
    (hTables : disk.TablesWellFormed)
    (hMounted : fs.MountedOn disk)
    (m : BitMap NumSectors)
    (memory : Memory) :
    m.fetchFrom fs.freeMapFile memory disk =
      some disk.freeMap := by
  have hWf := hTables.freeMap_wellFormed
  have hLength : fs.freeMapFile.hdr.length =
      numWords NumSectors * 4 := by
    rw [hMounted.freeMap_hdr]
    exact hTables.freeMap_length
  rw [← hMounted.freeMap_hdr] at hWf
  rw [BitMap.fetchFrom, OpenFile.fetchImage_eq hWf hLength,
    hMounted.freeMap_hdr]
  rfl

theorem fetch_directory
    (hTables : disk.TablesWellFormed)
    (hMounted : fs.MountedOn disk)
    (d : Directory NumDirEntries)
    (memory : Memory) :
    d.fetchFrom fs.directoryFile memory disk =
      some disk.directory := by
  have hWf := hTables.directory_wellFormed
  have hLength := hTables.directory_length
  rw [← hMounted.directory_hdr] at hWf hLength
  rw [Directory.fetchFrom,
    OpenFile.fetchImage_eq hWf hLength,
    hMounted.directory_hdr]
  rfl

/- Writing the free map back changes nothing else. -/
theorem writeBack_freeMap
    (hTables : disk.TablesWellFormed)
    (hMounted : fs.MountedOn disk)
    (m : BitMap NumSectors)
    (memory : Memory) :
    ∃ disk',
      m.writeBack fs.freeMapFile memory disk = some disk' ∧
      disk'.TablesWellFormed ∧
      fs.MountedOn disk' ∧
      disk'.freeMap = m ∧
      disk'.directory = disk.directory ∧
      ∀ s ∉ fs.freeMapFile.hdr.sectors,
        disk.Agree disk' s := by
  rcases OpenFile.storeImage_frame hMounted.freeMap_hdr
      hTables.freeMap_wellFormed hTables.freeMap_length
      hTables.nodup BitMap.image memory m with
    ⟨disk', hRun, hStored, hOwn, hOther, hFrame⟩
  have hHdr₀ := Disk.headerAt_congr hOwn
  have hHdr₁ := Disk.headerAt_congr
    (hOther _ List.mem_cons_self)
  refine ⟨disk', hRun, hTables.of_headers hHdr₀ hHdr₁,
    hMounted.of_headers hHdr₀ hHdr₁, ?_,
    hTables.directory_congr hOther, hFrame⟩
  rw [Disk.freeMap, hHdr₀]
  exact hStored

/- Writing the directory back changes nothing else. -/
theorem writeBack_directory
    (hTables : disk.TablesWellFormed)
    (hMounted : fs.MountedOn disk)
    (d : Directory NumDirEntries)
    (memory : Memory) :
    ∃ disk',
      d.writeBack fs.directoryFile memory disk =
        some disk' ∧
      disk'.TablesWellFormed ∧
      fs.MountedOn disk' ∧
      disk'.directory = d ∧
      disk'.freeMap = disk.freeMap ∧
      ∀ s ∉ fs.directoryFile.hdr.sectors,
        disk.Agree disk' s := by
  rcases OpenFile.storeImage_frame hMounted.directory_hdr
      hTables.directory_wellFormed hTables.directory_length
      (List.nodup_append_comm.mp hTables.nodup)
      Directory.image memory d with
    ⟨disk', hRun, hStored, hOwn, hOther, hFrame⟩
  have hHdr₁ := Disk.headerAt_congr hOwn
  have hHdr₀ := Disk.headerAt_congr
    (hOther _ List.mem_cons_self)
  refine ⟨disk', hRun, hTables.of_headers hHdr₀ hHdr₁,
    hMounted.of_headers hHdr₀ hHdr₁, ?_,
    hTables.freeMap_congr hOther, hFrame⟩
  rw [Disk.directory, hHdr₁]
  exact hStored

end FileSystem

end Nachos

------------------------------------
-- Consistent Disks
------------------------------------

namespace Nachos

open Ownership

namespace Disk

variable {disk disk' : Disk}

theorem mem_owned_of_mem
    {s x : Nat}
    (hs : s ∈ disk.fileSectors)
    (hx : x ∈ disk.sectorsOf s) :
    x ∈ disk.owned :=
  List.mem_flatMap.mpr ⟨s, hs, hx⟩

theorem mem_fileSectors_of_mem
    {s : Nat}
    (hs : s ∈ disk.directory.fileSectors) :
    s ∈ disk.fileSectors :=
  List.mem_cons_of_mem _ (List.mem_cons_of_mem _ hs)

namespace Separate

variable {files : List Nat}
variable {s : Nat}

theorem nodup_files
    (hFiles : disk.Separate files) :
    files.Nodup :=
  nodup_owners hFiles.nodup fun _ => List.cons_ne_nil _ _

theorem nodup_sectors
    (hFiles : disk.Separate files)
    (hs : s ∈ files) :
    (disk.headerAt s).sectors.Nodup :=
  (List.nodup_cons.mp (nodup_of_mem hFiles.nodup hs)).2

/- No file keeps data in a header sector. -/
theorem header_not_mem
    (hFiles : disk.Separate files)
    {s t : Nat}
    (hs : s ∈ files)
    (ht : t ∈ files) :
    s ∉ (disk.headerAt t).sectors := by
  have hNodup : (files.flatMap fun s =>
      s :: (disk.headerAt s).sectors).Nodup :=
    hFiles.nodup
  exact head_not_mem hNodup hs ht

/- Changing data of one file keeps all the headers. -/
theorem header_eq
    (hFiles : disk.Separate files)
    {f : Nat}
    (hf : f ∈ files)
    (hFrame :
      ∀ s ∉ (disk.headerAt f).sectors, disk.Agree disk' s)
    (hs : s ∈ files) :
    disk'.headerAt s = disk.headerAt s :=
  headerAt_congr (hFrame s (hFiles.header_not_mem hs hf))

/- Changing data of one file keeps the other files. -/
theorem agree_of_ne
    (hFiles : disk.Separate files)
    {f : Nat}
    (hf : f ∈ files)
    (hFrame :
      ∀ s ∉ (disk.headerAt f).sectors, disk.Agree disk' s)
    (hs : s ∈ files)
    (hNe : s ≠ f)
    {x : Nat}
    (hx : x ∈ disk.sectorsOf s) :
    disk.Agree disk' x := by
  refine hFrame x fun hMem => ?_
  exact not_mem_of_ne hFiles.nodup hs hf hNe hx
    (List.mem_cons_of_mem _ hMem)

theorem contents_eq_of_ne
    (hFiles : disk.Separate files)
    {f : Nat}
    (hf : f ∈ files)
    (hFrame :
      ∀ s ∉ (disk.headerAt f).sectors, disk.Agree disk' s)
    (hs : s ∈ files)
    (hNe : s ≠ f) :
    disk'.contents (disk.headerAt s) =
      disk.contents (disk.headerAt s) :=
  contents_congr (hFiles.wellFormed s hs) fun _ hx =>
    hFiles.agree_of_ne hf hFrame hs hNe
      (List.mem_cons_of_mem _ hx)

end Separate

namespace Consistent

theorem separate
    (hDisk : disk.Consistent) :
    disk.Separate disk.fileSectors :=
  ⟨hDisk.wellFormed, hDisk.tracks.nodup⟩

theorem lt_of_mem_owned
    (hDisk : disk.Consistent)
    {s : Nat}
    (hs : s ∈ disk.owned) :
    s < NumSectors := by
  rcases (hDisk.tracks.marked_iff s).mpr hs with ⟨h, _⟩
  exact h

theorem lt_of_mem_fileSectors
    (hDisk : disk.Consistent)
    {s : Nat}
    (hs : s ∈ disk.fileSectors) :
    s < NumSectors :=
  hDisk.lt_of_mem_owned
    (mem_owned_of_mem hs List.mem_cons_self)

/- The system files are not in the directory. -/
theorem ne_system
    (hDisk : disk.Consistent)
    {f : Nat}
    (hf : f ∈ disk.directory.fileSectors) :
    FreeMapSector ≠ f ∧ DirectorySector ≠ f := by
  have hNodup := hDisk.separate.nodup_files
  simp only [fileSectors, List.nodup_cons, List.mem_cons,
    not_or] at hNodup
  constructor
  · rintro rfl
    exact hNodup.1.2 hf
  · rintro rfl
    exact hNodup.2.1 hf

/-
  What changes only data sectors of one file of the directory
  keeps the tables, the headers and all other files.
-/
theorem write
    (hDisk : disk.Consistent)
    {f : Nat}
    (hf : f ∈ disk.directory.fileSectors)
    (hFrame :
      ∀ s ∉ (disk.headerAt f).sectors,
        disk.Agree disk' s) :
    disk'.Consistent ∧ disk.ChangesOnly disk' f := by
  have hFile := mem_fileSectors_of_mem hf
  have hSeparate := hDisk.separate
  have hHeaders : ∀ s ∈ disk.fileSectors,
      disk'.headerAt s = disk.headerAt s :=
    fun s hs => hSeparate.header_eq hFile hFrame hs
  have hNe := hDisk.ne_system hf
  have hMap : disk'.freeMap = disk.freeMap :=
    hDisk.tables.freeMap_congr fun x hx =>
      hSeparate.agree_of_ne hFile hFrame
        disk.freeMapSector_mem hNe.1 hx
  have hDirectory : disk'.directory = disk.directory :=
    hDisk.tables.directory_congr fun x hx =>
      hSeparate.agree_of_ne hFile hFrame
        disk.directorySector_mem hNe.2 hx
  have hFiles : disk'.fileSectors = disk.fileSectors := by
    rw [fileSectors, fileSectors, hDirectory]
  have hOwned : disk'.owned = disk.owned := by
    rw [owned, owned, hFiles]
    refine List.flatMap_congr fun s hs => ?_
    rw [sectorsOf, sectorsOf, hHeaders s hs]
  refine ⟨⟨?_, ?_, ?_, ?_⟩,
    ⟨hFrame, hMap, hDirectory, hHeaders,
      fun s hs => hSeparate.contents_eq_of_ne hFile hFrame
        hs⟩⟩
  · intro s hs
    rw [hFiles] at hs
    rw [hHeaders s hs]
    exact hDisk.wellFormed s hs
  · rw [hHeaders _ disk.freeMapSector_mem]
    exact hDisk.freeMap_length
  · rw [hHeaders _ disk.directorySector_mem]
    exact hDisk.directory_length
  · rw [hMap, hOwned]
    exact hDisk.tracks

end Consistent

end Disk

end Nachos
