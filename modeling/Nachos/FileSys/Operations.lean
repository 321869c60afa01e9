import Nachos.FileSys.Accounting

/-
  What the operations of the file system do to a consistent
  disk.

  Every operation succeeds in the sense that no assertion
  fails, and leaves a consistent disk with the system files
  still in place.

  Main declarations:
    * `FileSystem.create_spec`
    * `FileSystem.create_all_or_nothing`
    * `FileSystem.openFile_of_found`
    * `FileSystem.remove_accounted`
    * `FileSystem.remove_spec`
-/

------------------------------------
-- Names
------------------------------------

namespace Nachos

open CInt

/- At most `n` characters from place `i` on, up to a zero. -/
def firstChars
    (s : Nat → Bytes.Byte)
    (i : Nat) :
    Nat → List Bytes.Byte
| 0 => []
| n + 1 =>
    if s i = 0 then
      []
    else
      s i :: firstChars s (i + 1) n

theorem firstChars_congr
    {s t : Nat → Bytes.Byte}
    {i n : Nat}
    (hEq : ∀ k < n, s (i + k) = t (i + k)) :
    firstChars s i n = firstChars t i n := by
  induction n generalizing i with
  | zero => rfl
  | succ n ih =>
      have hHead : s i = t i := hEq 0 (by omega)
      have hTail := ih (i := i + 1) (by
        intro k hk
        have hNext := hEq (k + 1) (by omega)
        rwa [← Nat.add_assoc, Nat.add_right_comm] at hNext)
      rw [firstChars, firstChars, hHead, hTail]

/- Equal strings are those with the same characters. -/
theorem strncmpFrom_eq_zero_iff
    {s t : Nat → Bytes.Byte}
    {i n : Nat} :
    strncmpFrom s t i n = 0 ↔
      firstChars s i n = firstChars t i n := by
  induction n generalizing i with
  | zero => exact iff_of_true rfl rfl
  | succ n ih =>
      rw [strncmpFrom, firstChars, firstChars]
      by_cases hHead : s i = t i
      · rw [if_neg (not_not.mpr hHead), ← hHead]
        by_cases hEnd : s i = 0
        · simp only [if_pos hEnd]
        · simp only [if_neg hEnd, ih, List.cons.injEq,
            true_and]
      · rw [if_pos hHead]
        have hNe : (s i).toNat ≠ (t i).toNat :=
          fun hNat => hHead (BitVec.eq_of_toNat_eq hNat)
        refine iff_of_false (by omega) ?_
        intro hEq
        split at hEq
        · rename_i hs
          split at hEq
          · rename_i ht
            exact hHead (hs.trans ht.symm)
          · cases hEq
        · split at hEq
          · cases hEq
          · exact hHead (List.cons.inj hEq).1

namespace DirectoryEntry

theorem isInUse_assign
    (e : DirectoryEntry)
    (name : CString)
    (newSector : Int) :
    (e.assign name newSector).isInUse = true := by
  simp [assign, isInUse]

theorem sector_assign
    (e : DirectoryEntry)
    (name : CString)
    {s : Nat}
    (hs : s < NumSectors) :
    (e.assign name s).sector.toNat = s := by
  simp only [NumSectors, SectorsPerTrack, NumTracks] at hs
  exact toNat_ofInt_natCast (by omega)

/- An entry answers to the name it was given. -/
theorem isNamed_assign
    (e : DirectoryEntry)
    (name : CString)
    (newSector : Int) :
    (e.assign name newSector).isNamed name = true := by
  rw [isNamed, isInUse_assign, Bool.true_and, beq_iff_eq,
    strncmp, strncmpFrom_eq_zero_iff]
  apply firstChars_congr
  intro k hk
  have hIn : 0 + k < FileNameMaxLen + 1 := by
    omega
  have hLt : 0 + k < FileNameMaxLen := by
    omega
  simp only [nameChar, hIn, dif_pos, assign, hLt, if_true]

end DirectoryEntry

namespace Directory

variable {tableSize : Nat}
variable {d : Directory tableSize}
variable {name : CString}

theorem table_set
    (d : Directory tableSize)
    (i : Fin tableSize)
    (e : DirectoryEntry) :
    (d.set i e).table i = e :=
  Function.update_self ..

/- A new directory has no files. -/
theorem fileSectors_create
    (memory : Fin tableSize → DirectoryEntry) :
    (create memory).fileSectors = [] := by
  have hNone : (List.finRange tableSize).filter (fun i =>
      ((create memory).table i).isInUse) = [] := by
    simp [create, DirectoryEntry.isInUse]
  rw [fileSectors, hNone, List.map_nil]

/- A name that was put into an entry is found there. -/
theorem findIndex_set_assign
    (hAbsent : d.findIndex name = none)
    (i : Fin tableSize)
    (newSector : Int) :
    (d.set i ((d.table i).assign name newSector)).findIndex
      name = some i := by
  have hOthers : ∀ j, (d.table j).isNamed name = false := by
    intro j
    have hNone := List.find?_eq_none.mp hAbsent j
      (List.mem_finRange j)
    simpa using hNone
  have hNamed : ∀ j,
      ((d.set i ((d.table i).assign name newSector)).table
        j).isNamed name = decide (j = i) := by
    intro j
    by_cases hEq : j = i
    · subst hEq
      simp [set, DirectoryEntry.isNamed_assign]
    · simp [set, hOthers, hEq]
  rw [findIndex, funext hNamed]
  cases hFind : (List.finRange tableSize).find? fun j =>
      decide (j = i) with
  | none =>
      have hNone := List.find?_eq_none.mp hFind i
        (List.mem_finRange i)
      simp at hNone
  | some j =>
      have hEq := List.find?_some
        (p := fun j => decide (j = i)) hFind
      rw [decide_eq_true_eq] at hEq
      rw [hEq]

/- The table is full when no entry is free. -/
theorem freeIndex_eq_none_iff :
    d.freeIndex = none ↔
      ∀ i, (d.table i).isInUse = true := by
  simp [freeIndex]

theorem freeIndex_eq_some
    {i : Fin tableSize}
    (hFree : d.freeIndex = some i) :
    (d.table i).isInUse = false := by
  have hNot := List.find?_some
    (p := fun i => !(d.table i).isInUse) hFree
  simpa using hNot

theorem find_of_findIndex_eq_none
    (hAbsent : d.findIndex name = none) :
    d.find name = -1 := by
  simp [find, hAbsent]

theorem add_of_findIndex_eq_none
    (hAbsent : d.findIndex name = none)
    {i : Fin tableSize}
    (hFree : d.freeIndex = some i)
    (newSector : Int) :
    d.add name newSector =
      (true,
        d.set i ((d.table i).assign name newSector)) := by
  simp [add, hAbsent, hFree]

end Directory

end Nachos

------------------------------------
-- Lookups on a Consistent Disk
------------------------------------

namespace Nachos

open CInt

namespace FileHeader

theorem fetchFrom_natCast
    (disk : Disk)
    {s : Nat}
    (hs : s < NumSectors) :
    fetchFrom disk s = some (disk.headerAt s) := by
  rw [fetchFrom, SynchDisk.readSector_natCast disk hs,
    Option.map_some, Disk.headerAt]
  congr 2
  funext i
  exact (disk.byteAt_val ⟨s, hs⟩ i).symm

end FileHeader

namespace Disk

variable {disk : Disk}
variable {name : CString}

/- A name that is found gives the sector of its header. -/
theorem Consistent.find_eq
    (hDisk : disk.Consistent)
    {i : Fin NumDirEntries}
    (hFind : disk.directory.findIndex name = some i) :
    (disk.directory.table i).sector.toNat ∈
        disk.directory.fileSectors ∧
      disk.directory.find name =
        ((disk.directory.table i).sector.toNat : Int) :=
  hDisk.accounted.find_eq hFind

/- A lookup fails just when the name is in no entry. -/
theorem Consistent.find_eq_neg_one_iff
    (hDisk : disk.Consistent) :
    disk.directory.find name = -1 ↔
      disk.directory.findIndex name = none := by
  constructor
  · intro hNot
    cases hFind : disk.directory.findIndex name with
    | none => rfl
    | some i =>
        have hEq := (hDisk.find_eq hFind).2
        omega
  · exact Directory.find_of_findIndex_eq_none

end Disk

end Nachos

------------------------------------
-- Formatting
------------------------------------

namespace Nachos

open Ownership

namespace BitMap

variable {numBits : Nat}
variable {m : BitMap numBits}

theorem mark_natCast
    (m : BitMap numBits)
    {s : Nat}
    (hs : s < numBits) :
    m.mark s = some (m.setBit ⟨s, hs⟩) := by
  have hRange : (0 : Int) ≤ s ∧ (s : Int) < numBits := by
    omega
  simp only [mark, hRange, and_self, dif_pos,
    Int.toNat_natCast]

theorem clear_natCast
    (m : BitMap numBits)
    {s : Nat}
    (hs : s < numBits) :
    m.clear s = some (m.clearBit ⟨s, hs⟩) := by
  have hRange : (0 : Int) ≤ s ∧ (s : Int) < numBits := by
    omega
  simp only [clear, hRange, and_self, dif_pos,
    Int.toNat_natCast]

theorem bit_of_freeBits_eq_cons
    {i : Fin numBits}
    {rest : List (Fin numBits)}
    (hFree : m.freeBits = i :: rest) :
    m.bit i = false := by
  rw [← mem_freeBits_iff, hFree]
  exact List.mem_cons_self

/- What is not owned is free. -/
theorem bit_eq_false_of_not_mem
    {held : List Nat}
    (hTracks : Tracks m.IsMarked held)
    {i : Fin numBits}
    (hNot : i.1 ∉ held) :
    m.bit i = false := by
  rw [Bool.eq_false_iff, ne_eq, ← isMarked_val,
    hTracks.marked_iff]
  exact hNot

/- Free and owned sectors make up the disk. -/
theorem length_freeBits
    {held : List Nat}
    (hTracks : Tracks m.IsMarked held) :
    m.freeBits.length + held.length = numBits := by
  have hPerm :
      (((List.finRange numBits).filter m.bit).map
        Fin.val).Perm held := by
    refine (List.perm_ext_iff_of_nodup ?_
      hTracks.nodup).mpr ?_
    · exact ((List.nodup_finRange _).filter _).map
        Fin.val_injective
    · intro s
      rw [← hTracks.marked_iff, IsMarked]
      simp only [List.mem_map, List.mem_filter,
        List.mem_finRange, true_and]
      constructor
      · rintro ⟨i, hBit, rfl⟩
        exact ⟨i.2, hBit⟩
      · rintro ⟨h, hBit⟩
        exact ⟨⟨s, h⟩, hBit, rfl⟩
  have hLength := hPerm.length_eq
  rw [List.length_map] at hLength
  have hSplit := List.length_eq_length_filter_add
    (l := List.finRange numBits) m.bit
  rw [List.length_finRange] at hSplit
  rw [freeBits, ← hLength]
  omega

end BitMap

namespace FileHeader

theorem writeBack_spec
    (hdr : FileHeader)
    (disk : Disk)
    {s : Nat}
    (hs : s < NumSectors) :
    ∃ disk',
      hdr.writeBack disk s = some disk' ∧
      disk'.headerAt s = hdr ∧
      ∀ t, t ≠ s → disk.Agree disk' t := by
  refine ⟨_, SynchDisk.writeSector_natCast disk hs _, ?_, ?_⟩
  · rw [Disk.headerAt, Equiv.symm_apply_eq]
    funext i
    have hByte := Disk.byteAt_val
      (Function.update disk ⟨s, hs⟩ (image hdr)) ⟨s, hs⟩ i
    rw [Function.update_self] at hByte
    exact hByte
  · intro t hNe
    exact disk.byteAt_update_of_ne _ hNe

end FileHeader

end Nachos

namespace Nachos

open Ownership

namespace FileSystem

/-
  The marks of a new file system: its two header sectors and
  the data sectors of both headers.
-/
theorem format_allocates
    (memory : Memory) :
    ∃ m₁ m₂ m₃ m₄ mapHdr dirHdr,
      (memory.bitMap 0).mark FreeMapSector = some m₁ ∧
      m₁.mark DirectorySector = some m₂ ∧
      (memory.header 2).allocate m₂ FreeMapFileSize =
        some (true, mapHdr, m₃) ∧
      (memory.header 3).allocate m₃ DirectoryFileSize =
        some (true, dirHdr, m₄) ∧
      mapHdr.WellFormed ∧
      mapHdr.length = FreeMapFileSize ∧
      dirHdr.WellFormed ∧
      dirHdr.length = DirectoryFileSize ∧
      Tracks m₄.IsMarked
        ((FreeMapSector :: mapHdr.sectors) ++
          (DirectorySector :: dirHdr.sectors)) := by
  have hEmpty : Tracks (memory.bitMap 0).IsMarked [] :=
    BitMap.tracks_create _
  have hFirst := BitMap.tracks_setBit hEmpty
    (i := ⟨FreeMapSector, by decide⟩) (BitMap.bit_create _ _)
  have hSecond := BitMap.tracks_setBit hFirst
    (i := ⟨DirectorySector, by decide⟩)
    (BitMap.bit_eq_false_of_not_mem hFirst (by decide))
  have hRoom := BitMap.length_freeBits hSecond
  rcases FileHeader.allocate_tracks (memory.header 2) hSecond
      (show FreeMapFileSize ≤ MaxFileSize by decide)
      (show FileHeader.sectorsFor FreeMapFileSize ≤ _ by
        rw [show FileHeader.sectorsFor FreeMapFileSize = 1
          from rfl]
        simp only [List.length_cons, List.length_nil,
          NumSectors, SectorsPerTrack, NumTracks] at hRoom
        omega) with
    ⟨mapHdr, m₃, hMap, hMapWf, hMapLength, _, hThird⟩
  have hMapSectors : mapHdr.sectors.length = 1 := by
    rw [hMapWf.length_sectors, hMapLength]
    rfl
  have hRoom' := BitMap.length_freeBits hThird
  rcases FileHeader.allocate_tracks (memory.header 3) hThird
      (show DirectoryFileSize ≤ MaxFileSize by decide)
      (show FileHeader.sectorsFor DirectoryFileSize ≤ _ by
        rw [show FileHeader.sectorsFor DirectoryFileSize = 2
          from rfl]
        simp only [List.length_append, List.length_cons,
          List.length_nil, NumSectors, SectorsPerTrack,
          NumTracks, hMapSectors] at hRoom'
        omega) with
    ⟨dirHdr, m₄, hDir, hDirWf, hDirLength, _, hFourth⟩
  refine ⟨_, _, m₃, m₄, mapHdr, dirHdr,
    BitMap.mark_natCast _ (by decide),
    BitMap.mark_natCast _ (by decide), hMap, hDir, hMapWf,
    hMapLength, hDirWf, hDirLength, hFourth.perm ?_⟩
  rw [List.perm_iff_count]
  intro s
  simp only [List.count_append, List.count_cons,
    List.count_nil]
  omega

/- Mounting reads the two headers. -/
theorem mount_eq
    (disk : Disk) :
    mount disk =
      some
        ⟨⟨disk.headerAt FreeMapSector, 0⟩,
          ⟨disk.headerAt DirectorySector, 0⟩⟩ := by
  simp only [mount, OpenFile.openAt,
    FileHeader.fetchFrom_natCast disk
      (show FreeMapSector < NumSectors by decide),
    FileHeader.fetchFrom_natCast disk
      (show DirectorySector < NumSectors by decide),
    Option.map_some, Option.bind_eq_bind, Option.bind_some]

/- Formatting succeeds and writes the new directory. -/
theorem format_writes
    (memory : Memory)
    (disk : Disk) :
    ∃ fs disk',
      format memory disk = some (fs, disk') ∧
      disk'.Consistent ∧
      fs.MountedOn disk' ∧
      disk'.directory = memory.directory 1 := by
  rcases format_allocates memory with
    ⟨m₁, m₂, m₃, m₄, mapHdr, dirHdr, hMark₀, hMark₁, hMap,
      hDir, hMapWf, hMapLength, hDirWf, hDirLength, hTracks⟩
  rcases mapHdr.writeBack_spec disk
      (show FreeMapSector < NumSectors by decide) with
    ⟨disk₁, hWrite₁, hHdr₁, _⟩
  rcases dirHdr.writeBack_spec disk₁
      (show DirectorySector < NumSectors by decide) with
    ⟨disk₂, hWrite₂, hDirHdr, hFrame₂⟩
  have hMapHdr : disk₂.headerAt FreeMapSector = mapHdr := by
    rw [Disk.headerAt_congr (hFrame₂ _ (by decide)), hHdr₁]
  have hTables : disk₂.TablesWellFormed := by
    constructor
    · rwa [hMapHdr]
    · rwa [hDirHdr]
    · rwa [hMapHdr]
    · rwa [hDirHdr]
    · rw [Disk.sectorsOf, Disk.sectorsOf, hMapHdr, hDirHdr]
      exact hTracks.nodup
  obtain ⟨fs, hMount, hMounted⟩ :
      ∃ fs, mount disk₂ = some fs ∧ fs.MountedOn disk₂ :=
    ⟨_, mount_eq disk₂, ⟨rfl, rfl⟩⟩
  rcases writeBack_freeMap hTables hMounted m₄
      (memory.after 4) with
    ⟨disk₃, hWrite₃, hTables₃, hMounted₃, hMap₃, _, _⟩
  rcases writeBack_directory hTables₃ hMounted₃
      (memory.directory 1) (memory.after 7) with
    ⟨disk₄, hWrite₄, hTables₄, hMounted₄, hDir₄, hMap₄, _⟩
  have hNone : disk₄.directory.fileSectors = [] := by
    rw [hDir₄]
    exact Directory.fileSectors_create _
  refine ⟨fs, disk₄, ?_, ?_, hMounted₄, hDir₄⟩
  · unfold format
    simp only [Option.bind_eq_bind, Option.bind_eq_some_iff]
    exact ⟨m₁, hMark₀, m₂, hMark₁, _, hMap, (), rfl, _, hDir,
      (), rfl, disk₁, hWrite₁, disk₂, hWrite₂, fs, hMount,
      disk₃, hWrite₃, disk₄, hWrite₄, rfl⟩
  · -- both headers are the ones that were written first
    have hHdrs : disk₄.headerAt FreeMapSector = mapHdr ∧
        disk₄.headerAt DirectorySector = dirHdr := by
      rw [← hMounted₄.freeMap_hdr, hMounted.freeMap_hdr,
        ← hMounted₄.directory_hdr, hMounted.directory_hdr]
      exact ⟨hMapHdr, hDirHdr⟩
    rw [Disk.consistent_iff_accounted]
    refine Disk.Accounted.of_perm
      [FreeMapSector, DirectorySector] hTables₄ ?_ ?_ ?_
    · rw [Disk.fileSectors, hNone]
    · intro s hs
      rcases List.mem_pair.mp hs with rfl | rfl
      · rwa [hHdrs.1]
      · rwa [hHdrs.2]
    · rw [hMap₄, hMap₃]
      simp only [List.flatMap_cons, List.flatMap_nil,
        List.append_nil, Disk.holdingOf, hHdrs]
      exact hTracks

/- What matters of it for the files on the disk. -/
theorem format_spec
    (memory : Memory)
    (disk : Disk) :
    ∃ fs disk',
      format memory disk = some (fs, disk') ∧
      disk'.Consistent ∧
      fs.MountedOn disk' ∧
      disk'.directory.fileSectors = [] := by
  rcases format_writes memory disk with
    ⟨fs, disk', hRun, hDisk, hMounted, hDirectory⟩
  refine ⟨fs, disk', hRun, hDisk, hMounted, ?_⟩
  rw [hDirectory]
  exact Directory.fileSectors_create _

end FileSystem

end Nachos

------------------------------------
-- Creating Files
------------------------------------

namespace Nachos

open Ownership CInt

namespace FileSystem

variable {fs : FileSystem}
variable {disk : Disk}
variable {name : CString}

/- Is a sector no data of the system files? -/
def IsPlain
    (fs : FileSystem)
    (s : Nat) : Prop :=
  s ∉ fs.freeMapFile.hdr.sectors ∧
    s ∉ fs.directoryFile.hdr.sectors

theorem isPlain_of_not_mem
    (hMounted : fs.MountedOn disk)
    {s : Nat}
    (hFreeMap :
      s ∉ (disk.headerAt FreeMapSector).sectors)
    (hDirectory :
      s ∉ (disk.headerAt DirectorySector).sectors) :
    fs.IsPlain s := by
  rw [IsPlain, hMounted.freeMap_hdr, hMounted.directory_hdr]
  exact ⟨hFreeMap, hDirectory⟩

/- Headers are outside of the system files. -/
theorem isPlain_of_mem
    {a : Accounting}
    (hKept : disk.Accounted a)
    (hMounted : fs.MountedOn disk)
    {s : Nat}
    (hs : s ∈ disk.fileSectors) :
    fs.IsPlain s :=
  isPlain_of_not_mem hMounted (hKept.header_not_mem hs).1
    (hKept.header_not_mem hs).2

/- Both tables can be replaced in either order. -/
theorem writeBack_tables
    (hTables : disk.TablesWellFormed)
    (hMounted : fs.MountedOn disk)
    (d : Directory NumDirEntries)
    (m : BitMap NumSectors)
    (memory memory' : Memory) :
    ∃ disk₁ disk₂,
      d.writeBack fs.directoryFile memory disk =
        some disk₁ ∧
      m.writeBack fs.freeMapFile memory' disk₁ =
        some disk₂ ∧
      disk₂.TablesWellFormed ∧
      fs.MountedOn disk₂ ∧
      disk₂.directory = d ∧
      disk₂.freeMap = m ∧
      ∀ s, fs.IsPlain s → disk.Agree disk₂ s := by
  rcases writeBack_directory hTables hMounted d memory with
    ⟨disk₁, hWrite₁, hTables₁, hMounted₁, hDir₁, _, hFrame₁⟩
  rcases writeBack_freeMap hTables₁ hMounted₁ m memory' with
    ⟨disk₂, hWrite₂, hTables₂, hMounted₂, hMap₂, hDir₂,
      hFrame₂⟩
  refine ⟨disk₁, disk₂, hWrite₁, hWrite₂, hTables₂,
    hMounted₂, hDir₂.trans hDir₁, hMap₂, ?_⟩
  intro s hPlain
  exact (hFrame₁ s hPlain.2).trans (hFrame₂ s hPlain.1)

theorem writeBack_tables'
    (hTables : disk.TablesWellFormed)
    (hMounted : fs.MountedOn disk)
    (m : BitMap NumSectors)
    (d : Directory NumDirEntries)
    (memory memory' : Memory) :
    ∃ disk₁ disk₂,
      m.writeBack fs.freeMapFile memory disk =
        some disk₁ ∧
      d.writeBack fs.directoryFile memory' disk₁ =
        some disk₂ ∧
      disk₂.TablesWellFormed ∧
      fs.MountedOn disk₂ ∧
      disk₂.freeMap = m ∧
      disk₂.directory = d ∧
      ∀ s, fs.IsPlain s → disk.Agree disk₂ s := by
  rcases writeBack_freeMap hTables hMounted m memory with
    ⟨disk₁, hWrite₁, hTables₁, hMounted₁, hMap₁, _, hFrame₁⟩
  rcases writeBack_directory hTables₁ hMounted₁ d
      memory' with
    ⟨disk₂, hWrite₂, hTables₂, hMounted₂, hDir₂, hMap₂,
      hFrame₂⟩
  refine ⟨disk₁, disk₂, hWrite₁, hWrite₂, hTables₂,
    hMounted₂, hMap₂.trans hMap₁, hDir₂, ?_⟩
  intro s hPlain
  exact (hFrame₁ s hPlain.1).trans (hFrame₂ s hPlain.2)

end FileSystem

namespace Directory

variable {tableSize : Nat}
variable {d : Directory tableSize}

theorem fileSectors_set_assign
    {j : Fin tableSize}
    (hEntry : d.freeIndex = some j)
    (name : CString)
    {s : Nat}
    (hs : s < NumSectors) :
    (d.set j
        ((d.table j).assign name s)).fileSectors.Perm
      (s :: d.fileSectors) := by
  have hPerm := fileSectors_set (freeIndex_eq_some hEntry)
    ((d.table j).isInUse_assign name s)
  rwa [DirectoryEntry.sector_assign _ _ hs] at hPerm

end Directory

namespace FileSystem

variable {fs : FileSystem}
variable {disk : Disk}
variable {name : CString}
variable {rest : List (Fin NumSectors)}
variable {j : Fin NumDirEntries}
variable {i : Fin NumSectors}

/- What is left to do when the name is not in use. -/
theorem create_of_absent
    (hTables : disk.TablesWellFormed)
    (hMounted : fs.MountedOn disk)
    (memory : Memory)
    (hAbsent : disk.directory.findIndex name = none)
    {size : Int} :
    fs.create memory disk name size =
      (let (sector, freeMap) := disk.freeMap.find
      if sector = -1 then
        some (false, disk)
      else
        let (added, directory) :=
          disk.directory.add name sector
        if !added then
          some (false, disk)
        else do
          let (allocated, hdr, freeMap) ←
            (memory.header 4).allocate freeMap size
          if !allocated then
            some (false, disk)
          else
            let disk ← hdr.writeBack disk sector
            let disk ←
              directory.writeBack fs.directoryFile
                (memory.after 5) disk
            let disk ←
              freeMap.writeBack fs.freeMapFile
                (memory.after 8) disk
            some (true, disk)) := by
  have hFind := Directory.find_of_findIndex_eq_none hAbsent
  rw [create, fetch_directory hTables hMounted,
    Option.bind_eq_bind, Option.bind_some,
    if_neg (not_not.mpr hFind),
    fetch_freeMap hTables hMounted,
    Option.bind_eq_bind, Option.bind_some]

/- What is left to do when there is a sector and an entry. -/
theorem create_of_entry
    (hTables : disk.TablesWellFormed)
    (hMounted : fs.MountedOn disk)
    (memory : Memory)
    (hAbsent : disk.directory.findIndex name = none)
    (hFree : disk.freeMap.freeBits = i :: rest)
    (hEntry : disk.directory.freeIndex = some j)
    {size : Int} :
    fs.create memory disk name size =
      (do
        let (allocated, hdr, freeMap) ←
          (memory.header 4).allocate
            (disk.freeMap.setBit i) size
        if !allocated then
          some (false, disk)
        else
          let disk₁ ← hdr.writeBack disk i
          let disk₂ ←
            (disk.directory.set j
              ((disk.directory.table j).assign
                name i)).writeBack
                  fs.directoryFile (memory.after 5) disk₁
          let disk₃ ←
            freeMap.writeBack fs.freeMapFile
              (memory.after 8) disk₂
          some (true, disk₃)) := by
  rw [create_of_absent hTables hMounted memory hAbsent,
    BitMap.find_of_freeBits_eq_cons hFree]
  dsimp only
  rw [if_neg (by omega),
    Directory.add_of_findIndex_eq_none hAbsent hEntry]
  rfl

/-
  Once the sectors are allocated, the new header and both
  tables are written.
-/
theorem create_allocated
    (hTables : disk.TablesWellFormed)
    (hMounted : fs.MountedOn disk)
    (memory : Memory)
    {size : Int}
    (hAbsent : disk.directory.findIndex name = none)
    (hFree : disk.freeMap.freeBits = i :: rest)
    (hEntry : disk.directory.freeIndex = some j)
    (hFreeMap : i.1 ∉ disk.sectorsOf FreeMapSector)
    (hDirectory : i.1 ∉ disk.sectorsOf DirectorySector)
    {hdr : FileHeader}
    {freeMap : BitMap NumSectors}
    (hAllocate :
      (memory.header 4).allocate (disk.freeMap.setBit i)
        size = some (true, hdr, freeMap)) :
    ∃ disk',
      fs.create memory disk name size =
        some (true, disk') ∧
      disk'.TablesWellFormed ∧
      fs.MountedOn disk' ∧
      disk'.directory =
        disk.directory.set j
          ((disk.directory.table j).assign name i) ∧
      disk'.freeMap = freeMap ∧
      disk'.headerAt i = hdr ∧
      ∀ s, s ≠ i.1 → fs.IsPlain s → disk.Agree disk' s := by
  rw [Disk.sectorsOf, List.mem_cons, not_or]
    at hFreeMap hDirectory
  have hPlain : fs.IsPlain i :=
    isPlain_of_not_mem hMounted hFreeMap.2 hDirectory.2
  rcases hdr.writeBack_spec disk i.2 with
    ⟨disk₁, hWrite₁, hHdr, hFrame₁⟩
  have hOld₀ := Disk.headerAt_congr
    (hFrame₁ _ (Ne.symm hFreeMap.1))
  have hOld₁ := Disk.headerAt_congr
    (hFrame₁ _ (Ne.symm hDirectory.1))
  rcases writeBack_tables
      (hTables.of_headers hOld₀ hOld₁)
      (hMounted.of_headers hOld₀ hOld₁)
      (disk.directory.set j
        ((disk.directory.table j).assign name i)) freeMap
      (memory.after 5) (memory.after 8) with
    ⟨disk₂, disk₃, hWrite₂, hWrite₃, hTables₃, hMounted₃,
      hDir₃, hMap₃, hFrame₃⟩
  have hHdr₃ : disk₃.headerAt i = hdr := by
    rw [Disk.headerAt_congr (hFrame₃ i hPlain), hHdr]
  refine ⟨disk₃, ?_, hTables₃, hMounted₃, hDir₃, hMap₃, hHdr₃,
    fun s hs hPlain =>
      (hFrame₁ s hs).trans (hFrame₃ s hPlain)⟩
  rw [create_of_entry hTables hMounted memory hAbsent hFree
    hEntry, hAllocate]
  simp only [Bool.not_true, Bool.false_eq_true, if_false,
    Option.bind_eq_bind, Option.bind_some,
    Option.bind_eq_some_iff]
  exact ⟨disk₁, hWrite₁, disk₂, hWrite₂, disk₃, hWrite₃,
    rfl⟩

/-
  A new file is held like the others, when its sectors were
  taken out of the free map.
-/
theorem create_accounted
    {a : Accounting}
    (hKept : disk.Accounted a)
    (hMounted : fs.MountedOn disk)
    (memory : Memory)
    {size : Int}
    (hAbsent : disk.directory.findIndex name = none)
    (hFree : disk.freeMap.freeBits = i :: rest)
    (hEntry : disk.directory.freeIndex = some j)
    {hdr : FileHeader}
    {freeMap : BitMap NumSectors}
    (hAllocate :
      (memory.header 4).allocate (disk.freeMap.setBit i)
        size = some (true, hdr, freeMap))
    (hGood : a.Good hdr)
    (hTracks :
      Tracks freeMap.IsMarked
        (a.data hdr ++ i.1 :: disk.holdings a)) :
    ∃ disk',
      fs.create memory disk name size =
        some (true, disk') ∧
      disk'.Accounted a ∧
      fs.MountedOn disk' ∧
      disk'.directory =
        disk.directory.set j
          ((disk.directory.table j).assign name i) ∧
      disk'.headerAt i = hdr ∧
      (∀ s ∈ disk.fileSectors,
        disk'.headerAt s = disk.headerAt s) ∧
      ∀ s, s ≠ i.1 → fs.IsPlain s → disk.Agree disk' s := by
  -- the header sector was held by nobody
  have hFresh : ∀ s ∈ disk.fileSectors,
      i.1 ∉ disk.holdingOf a s :=
    fun s hs => hKept.not_mem_of_clear
      (BitMap.bit_of_freeBits_eq_cons hFree) hs
  have hFreeMap := hFresh _ disk.freeMapSector_mem
  have hDirectory := hFresh _ disk.directorySector_mem
  rw [hKept.holdingOf_freeMap] at hFreeMap
  rw [hKept.holdingOf_directory] at hDirectory
  rcases create_allocated hKept.tables hMounted memory
      hAbsent hFree hEntry hFreeMap hDirectory hAllocate with
    ⟨disk', hRun, hTables', hMounted', hDir, hMap, hHdr,
      hFrame⟩
  have hOld : ∀ s ∈ disk.fileSectors,
      disk'.headerAt s = disk.headerAt s := by
    intro s hs
    refine Disk.headerAt_congr (hFrame s ?_
      (isPlain_of_mem hKept hMounted hs))
    rintro rfl
    exact hFresh _ hs List.mem_cons_self
  have hFiles : disk'.directory.fileSectors.Perm
      (i.1 :: disk.directory.fileSectors) := by
    rw [hDir]
    exact Directory.fileSectors_set_assign hEntry name i.2
  refine ⟨disk', hRun, ?_, hMounted', hDir, hHdr, hOld,
    hFrame⟩
  exact hKept.of_new_file hTables' hFiles hHdr hOld hGood
    (by rwa [hMap])

/-
  A name is free, there is a sector for the header, an entry
  and enough room for the data: the file is created.
-/
theorem create_spec
    (hDisk : disk.Consistent)
    (hMounted : fs.MountedOn disk)
    (memory : Memory)
    {size : Nat}
    (hSize : size ≤ MaxFileSize)
    (hAbsent : disk.directory.findIndex name = none)
    (hFree : disk.freeMap.freeBits = i :: rest)
    (hEntry : disk.directory.freeIndex = some j)
    (hRoom : FileHeader.sectorsFor size ≤ rest.length) :
    ∃ disk',
      fs.create memory disk name size =
        some (true, disk') ∧
      (∃ freeMap,
        (memory.header 4).allocate (disk.freeMap.setBit i)
          size = some (true, disk'.headerAt i, freeMap)) ∧
      disk'.Consistent ∧
      fs.MountedOn disk' ∧
      disk'.directory =
        disk.directory.set j
          ((disk.directory.table j).assign name i) ∧
      (disk'.headerAt i).length = size ∧
      (disk'.headerAt i).sectors =
        (rest.take (FileHeader.sectorsFor size)).map
          Fin.val ∧
      (∀ s ∈ disk.fileSectors,
        disk'.headerAt s = disk.headerAt s) ∧
      ∀ s, s ≠ i.1 → fs.IsPlain s → disk.Agree disk' s := by
  have hTracks := BitMap.tracks_setBit hDisk.tracks
    (BitMap.bit_of_freeBits_eq_cons hFree)
  rcases FileHeader.allocate_tracks (memory.header 4)
      hTracks hSize
      (show _ ≤ (disk.freeMap.setBit i).freeBits.length by
        rwa [BitMap.freeBits_setBit hFree]) with
    ⟨hdr, freeMap, hAllocate, hWf, hLength, hSectors,
      hTracks'⟩
  rw [BitMap.freeBits_setBit hFree] at hSectors
  rcases create_accounted hDisk.accounted hMounted memory hAbsent
      hFree hEntry hAllocate hWf hTracks' with
    ⟨disk', hRun, hKept, hMounted', hDir, hHdr, hOld,
      hFrame⟩
  exact ⟨disk', hRun, ⟨freeMap, hHdr ▸ hAllocate⟩,
    Disk.consistent_iff_accounted.mpr hKept, hMounted', hDir,
    (congrArg FileHeader.length hHdr).trans hLength,
    (congrArg FileHeader.sectors hHdr).trans hSectors,
    hOld, hFrame⟩

end FileSystem

end Nachos

------------------------------------
-- Failing to Create
------------------------------------

namespace Nachos

open Ownership CInt

namespace FileSystem

variable {fs : FileSystem}
variable {disk : Disk}
variable {name : CString}

theorem create_of_found
    (hTables : disk.TablesWellFormed)
    (hMounted : fs.MountedOn disk)
    (memory : Memory)
    (hFound : disk.directory.find name ≠ -1)
    (size : Int) :
    fs.create memory disk name size = some (false, disk) := by
  rw [create, fetch_directory hTables hMounted,
    Option.bind_eq_bind, Option.bind_some, if_pos hFound]

theorem create_of_no_sector
    (hTables : disk.TablesWellFormed)
    (hMounted : fs.MountedOn disk)
    (memory : Memory)
    (hAbsent : disk.directory.findIndex name = none)
    (hFree : disk.freeMap.freeBits = [])
    (size : Int) :
    fs.create memory disk name size = some (false, disk) := by
  rw [create_of_absent hTables hMounted memory hAbsent,
    BitMap.find_of_freeBits_eq_nil hFree]
  dsimp only
  rw [if_pos rfl]

theorem create_of_full
    (hTables : disk.TablesWellFormed)
    (hMounted : fs.MountedOn disk)
    (memory : Memory)
    (hAbsent : disk.directory.findIndex name = none)
    {i : Fin NumSectors}
    {rest : List (Fin NumSectors)}
    (hFree : disk.freeMap.freeBits = i :: rest)
    (hFull : disk.directory.freeIndex = none)
    (size : Int) :
    fs.create memory disk name size = some (false, disk) := by
  have hAdd : disk.directory.add name i =
      (false, disk.directory) := by
    simp [Directory.add, hAbsent, hFull]
  rw [create_of_absent hTables hMounted memory hAbsent,
    BitMap.find_of_freeBits_eq_cons hFree]
  dsimp only
  rw [if_neg (by omega), hAdd]
  rfl

theorem create_of_no_room
    (hTables : disk.TablesWellFormed)
    (hMounted : fs.MountedOn disk)
    (memory : Memory)
    (hAbsent : disk.directory.findIndex name = none)
    {i : Fin NumSectors}
    {rest : List (Fin NumSectors)}
    (hFree : disk.freeMap.freeBits = i :: rest)
    {j : Fin NumDirEntries}
    (hEntry : disk.directory.freeIndex = some j)
    {size : Nat}
    (hRoom : rest.length < FileHeader.sectorsFor size) :
    fs.create memory disk name size = some (false, disk) := by
  rcases FileHeader.allocate_of_lt (memory.header 4)
      (show (disk.freeMap.setBit i).freeBits.length < _ by
        rwa [BitMap.freeBits_setBit hFree]) with
    ⟨hdr, hAllocate⟩
  rw [create_of_entry hTables hMounted memory hAbsent hFree
    hEntry, hAllocate]
  rfl

/- Either there is a reason to fail or nothing is missing. -/
theorem create_cases
    (hDisk : disk.Consistent)
    (hMounted : fs.MountedOn disk)
    (memory : Memory)
    (name : CString)
    (size : Nat) :
    ((disk.directory.find name ≠ -1 ∨
        disk.freeMap.freeBits.length = 0 ∨
        disk.directory.freeIndex = none ∨
        (disk.freeMap.freeBits.length : Int) - 1 <
          (FileHeader.sectorsFor size : Nat)) ∧
      fs.create memory disk name size =
        some (false, disk)) ∨
    ∃ i rest j,
      disk.directory.findIndex name = none ∧
      disk.freeMap.freeBits = i :: rest ∧
      disk.directory.freeIndex = some j ∧
      FileHeader.sectorsFor size ≤ rest.length := by
  by_cases hFound : disk.directory.find name ≠ -1
  · exact Or.inl ⟨Or.inl hFound,
      create_of_found hDisk.tables hMounted memory hFound size⟩
  have hAbsent := hDisk.find_eq_neg_one_iff.mp
    (not_not.mp hFound)
  cases hFree : disk.freeMap.freeBits with
  | nil =>
      exact Or.inl ⟨Or.inr (Or.inl rfl),
        create_of_no_sector hDisk.tables hMounted memory hAbsent
          hFree size⟩
  | cons i rest =>
      cases hEntry : disk.directory.freeIndex with
      | none =>
          exact Or.inl ⟨Or.inr (Or.inr (Or.inl rfl)),
            create_of_full hDisk.tables hMounted memory hAbsent
              hFree hEntry size⟩
      | some j =>
          by_cases hRoom :
              rest.length < FileHeader.sectorsFor size
          · refine Or.inl ⟨Or.inr (Or.inr (Or.inr ?_)),
              create_of_no_room hDisk.tables hMounted memory
                hAbsent hFree hEntry hRoom⟩
            rw [List.length_cons]
            omega
          · exact Or.inr ⟨i, rest, j, hAbsent, rfl, rfl,
              not_lt.mp hRoom⟩

end FileSystem

end Nachos

------------------------------------
-- Room for a File
------------------------------------

namespace Nachos

namespace Disk

variable {disk : Disk}

/- In an empty directory no name is found. -/
theorem findIndex_of_empty
    (hEmpty : disk.directory.fileSectors = [])
    (name : CString) :
    disk.directory.findIndex name = none := by
  cases hFind : disk.directory.findIndex name with
  | none => rfl
  | some i =>
      have hUsed := (Directory.findIndex_eq_some hFind).2
      have hMem := (disk.directory.mem_fileSectors_iff _).mpr
        ⟨i, hUsed, rfl⟩
      rw [hEmpty] at hMem
      exact absurd hMem List.not_mem_nil

/- The system files own five sectors. -/
theorem Consistent.length_owned
    (hDisk : disk.Consistent) :
    disk.owned.length = 5 +
      (disk.directory.fileSectors.flatMap
        disk.sectorsOf).length := by
  have hTables := hDisk.tables
  simp only [owned, fileSectors, sectorsOf, List.flatMap_cons,
    List.length_append, List.length_cons,
    hTables.freeMap_wellFormed.length_sectors,
    hTables.directory_wellFormed.length_sectors,
    hTables.freeMap_length, hTables.directory_length]
  exact (Nat.add_assoc 2 3 _).symm

/- With few files there is room for a small one. -/
theorem Consistent.exists_room
    (hDisk : disk.Consistent)
    (hOwned : disk.owned.length + 2 ≤ NumSectors)
    (hFew : disk.directory.fileSectors.length < NumDirEntries) :
    ∃ i i' rest j,
      disk.freeMap.freeBits = i :: i' :: rest ∧
      disk.directory.freeIndex = some j := by
  have hFree := BitMap.length_freeBits hDisk.tracks
  cases hEntry : disk.directory.freeIndex with
  | none =>
      have hUsed := Directory.freeIndex_eq_none_iff.mp hEntry
      simp only [Directory.fileSectors, hUsed, List.filter_true,
        List.length_map, List.length_finRange] at hFew
      exact absurd hFew (Nat.lt_irrefl _)
  | some j =>
      rcases hBits : disk.freeMap.freeBits with
        _ | ⟨i, _ | ⟨i', rest⟩⟩
      · rw [hBits, List.length_nil] at hFree
        omega
      · rw [hBits, List.length_singleton] at hFree
        omega
      · exact ⟨i, i', rest, j, rfl, rfl⟩

theorem Consistent.room_of_empty
    (hDisk : disk.Consistent)
    (hEmpty : disk.directory.fileSectors = []) :
    ∃ i i' rest j,
      disk.freeMap.freeBits = i :: i' :: rest ∧
      disk.directory.freeIndex = some j := by
  refine hDisk.exists_room ?_ ?_
  · rw [hDisk.length_owned, hEmpty, List.flatMap_nil]
    decide
  · rw [hEmpty]
    decide

end Disk

end Nachos

------------------------------------
-- Opening Files
------------------------------------

namespace Nachos

/- Memory that holds zeros everywhere. -/
def Memory.zero : Memory :=
  fun _ _ => 0

/- The file names "a" and "b". -/
def CString.a : CString :=
  ⟨[0x61], by decide⟩

def CString.b : CString :=
  ⟨[0x62], by decide⟩

namespace FileSystem

variable {fs : FileSystem}
variable {disk : Disk}
variable {name : CString}

/- A handle starts with the header that is on the disk. -/
theorem openFile_of_found
    (hDisk : disk.Consistent)
    (hMounted : fs.MountedOn disk)
    (memory : Memory)
    {i : Fin NumDirEntries}
    (hFind : disk.directory.findIndex name = some i) :
    fs.openFile memory disk name =
      some (some
        ⟨disk.headerAt (disk.directory.table i).sector.toNat,
          0⟩) := by
  rcases hDisk.find_eq hFind with ⟨hMem, hSector⟩
  have hLt := hDisk.lt_of_mem_fileSectors
    (Disk.mem_fileSectors_of_mem hMem)
  rw [openFile, fetch_directory hDisk.tables hMounted,
    Option.bind_eq_bind, Option.bind_some]
  dsimp only
  rw [hSector, if_pos (by omega), OpenFile.openAt,
    FileHeader.fetchFrom_natCast disk hLt]
  rfl

theorem openFile_of_absent
    (hDisk : disk.Consistent)
    (hMounted : fs.MountedOn disk)
    (memory : Memory)
    (hAbsent : disk.directory.findIndex name = none) :
    fs.openFile memory disk name = some none := by
  have hFind := Directory.find_of_findIndex_eq_none hAbsent
  rw [openFile, fetch_directory hDisk.tables hMounted,
    Option.bind_eq_bind, Option.bind_some]
  dsimp only
  rw [hFind, if_neg (by omega)]

/- A file that was put into an entry can be opened. -/
theorem openFile_of_set_assign
    {d : Directory NumDirEntries}
    (hDisk : disk.Consistent)
    (hMounted : fs.MountedOn disk)
    (memory : Memory)
    (hAbsent : d.findIndex name = none)
    {j : Fin NumDirEntries}
    {i : Fin NumSectors}
    (hDirectory :
      disk.directory =
        d.set j ((d.table j).assign name i)) :
    fs.openFile memory disk name =
        some (some ⟨disk.headerAt i, 0⟩) ∧
      (disk.headerAt i).WellFormed := by
  have hFind : disk.directory.findIndex name = some j := by
    rw [hDirectory]
    exact Directory.findIndex_set_assign hAbsent j i
  have hSector :
      (disk.directory.table j).sector.toNat = i := by
    rw [hDirectory, Directory.table_set]
    exact DirectoryEntry.sector_assign _ _ i.2
  have hOpen := openFile_of_found hDisk hMounted memory hFind
  have hMem := (hDisk.find_eq hFind).1
  rw [hSector] at hOpen hMem
  exact ⟨hOpen,
    hDisk.wellFormed _ (Disk.mem_fileSectors_of_mem hMem)⟩

/-
  A file is created unless its name is taken, there is no
  sector for the header, the directory is full or there is
  no room for the data.  A failure does not touch the disk,
  and a created file can be opened at its size.
-/
theorem create_all_or_nothing
    (hDisk : disk.Consistent)
    (hMounted : fs.MountedOn disk)
    (memory : Memory)
    (name : CString)
    {initialSize : Int}
    (hMin : 0 ≤ initialSize)
    (hMax : initialSize ≤ MaxFileSize) :
    ∃ success disk',
      fs.create memory disk name initialSize =
        some (success, disk') ∧
      (success = false ↔
        disk.directory.find name ≠ -1 ∨
        disk.freeMap.numClear = 0 ∨
        (∀ i, (disk.directory.table i).isInUse = true) ∨
        (disk.freeMap.numClear : Int) - 1 <
          (initialSize + (SectorSize - 1)) / SectorSize) ∧
      (success = false → disk' = disk) ∧
      (success = true →
        ∀ memory', ∃ file,
          fs.openFile memory' disk' name =
            some (some file) ∧
          file.length = initialSize) := by
  rcases Int.eq_ofNat_of_zero_le hMin with ⟨size, rfl⟩
  have hSize : size ≤ MaxFileSize := by
    omega
  have hCeil : ((size : Int) + (SectorSize - 1)) /
      SectorSize = (FileHeader.sectorsFor size : Nat) := by
    simp only [FileHeader.sectorsFor, SectorSize]
    omega
  rw [hCeil, disk.freeMap.numClear_eq,
    ← Directory.freeIndex_eq_none_iff]
  rcases create_cases hDisk hMounted memory name size with
    ⟨hReason, hRun⟩ | ⟨i, rest, j, hAbsent, hFree, hEntry,
      hRoom⟩
  · refine ⟨false, disk, hRun, ?_, fun _ => rfl, ?_⟩
    · exact iff_of_true rfl hReason
    · exact fun hTrue => Bool.noConfusion hTrue
  · rcases create_spec hDisk hMounted memory hSize hAbsent
        hFree hEntry hRoom with
      ⟨disk', hRun, _, hDisk', hMounted', hDirectory, hLength,
        _⟩
    refine ⟨true, disk', hRun, ?_, ?_, ?_⟩
    · have hFind :=
        Directory.find_of_findIndex_eq_none hAbsent
      simp [hFind, hFree, hEntry, hRoom]
    · exact fun hFalse => Bool.noConfusion hFalse
    · intro _ memory'
      rcases openFile_of_set_assign hDisk' hMounted' memory'
          hAbsent hDirectory with
        ⟨hOpen, hWf⟩
      refine ⟨_, hOpen, ?_⟩
      rw [OpenFile.length, hWf.fileLength_eq, hLength]

/- On the new disk none of the reasons to fail is there. -/
theorem create_all_or_nothing_a :
    ∃ fs disk disk' file,
      format Memory.zero (fun _ _ => 0) = some (fs, disk) ∧
      fs.create Memory.zero disk CString.a 1 =
        some (true, disk') ∧
      fs.openFile Memory.zero disk' CString.a =
        some (some file) ∧
      file.length = 1 := by
  rcases format_spec Memory.zero (fun _ _ => 0) with
    ⟨fs, disk, hFormat, hDisk, hMounted, hEmpty⟩
  rcases create_all_or_nothing hDisk hMounted Memory.zero
      CString.a (show (0 : Int) ≤ 1 by decide)
      (show (1 : Int) ≤ MaxFileSize by decide) with
    ⟨success, disk', hRun, hFails, _, hOpens⟩
  rcases hDisk.room_of_empty hEmpty with
    ⟨i, i', rest, j, hFree, hEntry⟩
  have hSuccess : success = true := by
    rw [← Bool.not_eq_false, hFails, disk.freeMap.numClear_eq,
      ← Directory.freeIndex_eq_none_iff, hFree, hEntry,
      Directory.find_of_findIndex_eq_none
        (Disk.findIndex_of_empty hEmpty CString.a)]
    rintro (hFound | hNone | hFull | hShort)
    · exact hFound rfl
    · cases hNone
    · cases hFull
    · simp only [SectorSize, List.length_cons] at hShort
      omega
  subst hSuccess
  rcases hOpens rfl Memory.zero with ⟨file, hOpen, hLength⟩
  exact ⟨fs, disk, disk', file, hFormat, hRun, hOpen, hLength⟩

end FileSystem

end Nachos

------------------------------------
-- Removing Files
------------------------------------

namespace Nachos

open Ownership CInt

namespace FileSystem

variable {fs : FileSystem}
variable {disk : Disk}
variable {name : CString}

theorem remove_of_absent
    (hTables : disk.TablesWellFormed)
    (hMounted : fs.MountedOn disk)
    (memory : Memory)
    (hAbsent : disk.directory.findIndex name = none) :
    fs.remove memory disk name = some (false, disk) := by
  have hFind := Directory.find_of_findIndex_eq_none hAbsent
  rw [remove, fetch_directory hTables hMounted,
    Option.bind_eq_bind, Option.bind_some]
  dsimp only
  rw [if_pos hFind]

/-
  Once the sectors are given back, both tables are written.
-/
theorem remove_deallocated
    (hTables : disk.TablesWellFormed)
    (hMounted : fs.MountedOn disk)
    (memory : Memory)
    {s : Nat}
    (hLt : s < NumSectors)
    (hSector : disk.directory.find name = s)
    {freeMap : BitMap NumSectors}
    (hDeallocate :
      (disk.headerAt s).deallocate disk.freeMap =
        some freeMap) :
    ∃ disk',
      fs.remove memory disk name = some (true, disk') ∧
      disk'.TablesWellFormed ∧
      fs.MountedOn disk' ∧
      disk'.freeMap = freeMap.clearBit ⟨s, hLt⟩ ∧
      disk'.directory = (disk.directory.remove name).2 ∧
      ∀ s, fs.IsPlain s → disk.Agree disk' s := by
  rcases writeBack_tables' hTables hMounted
      (freeMap.clearBit ⟨s, hLt⟩)
      (disk.directory.remove name).2
      (memory.after 4) (memory.after 7) with
    ⟨disk₁, disk₂, hWrite₁, hWrite₂, hRest⟩
  refine ⟨disk₂, ?_, hRest⟩
  rw [remove, fetch_directory hTables hMounted,
    Option.bind_eq_bind, Option.bind_some]
  dsimp only
  rw [hSector, if_neg (by omega),
    FileHeader.fetchFrom_natCast disk hLt,
    fetch_freeMap hTables hMounted]
  simp only [Option.bind_eq_bind, Option.bind_some,
    Option.bind_eq_some_iff]
  exact ⟨freeMap, hDeallocate, _,
    BitMap.clear_natCast _ hLt, disk₁, hWrite₁, disk₂,
    hWrite₂, rfl⟩

/-
  Removing a file never fails an assertion: the sectors that
  are given back are marked.
-/
theorem remove_accounted
    {a : Accounting}
    (hKept : disk.Accounted a)
    (hMounted : fs.MountedOn disk)
    (memory : Memory)
    {i : Fin NumDirEntries}
    (hFind : disk.directory.findIndex name = some i) :
    ∃ disk',
      fs.remove memory disk name = some (true, disk') ∧
      disk'.Accounted a ∧
      fs.MountedOn disk' ∧
      disk'.directory = (disk.directory.remove name).2 ∧
      (∀ s ∈ disk.fileSectors,
        disk'.headerAt s = disk.headerAt s) ∧
      ∀ s, fs.IsPlain s → disk.Agree disk' s := by
  rcases hKept.find_eq hFind with ⟨hMem, hSector⟩
  have hFile := Disk.mem_fileSectors_of_mem hMem
  generalize hs : (disk.directory.table i).sector.toNat = s
    at hMem hSector hFile
  have hLt := hKept.lt_of_mem hFile
  -- the files that are left, and what they hold
  have hPerm : disk.fileSectors.Perm
      (s :: FreeMapSector :: DirectorySector ::
        (disk.directory.remove name).2.fileSectors) := by
    have hFiles := Directory.fileSectors_remove hFind
    rw [hs] at hFiles
    refine ((hFiles.cons _).cons _).trans ?_
    exact ((List.Perm.swap _ _ _).cons _).trans
      (List.Perm.swap _ _ _)
  have hTracks := hKept.tracks.perm
    (hPerm.flatMap_right (disk.holdingOf a))
  rw [List.flatMap_cons, Disk.holdingOf] at hTracks
  rcases a.release (hKept.good s hFile)
      (hTracks.perm List.perm_middle.symm) with
    ⟨freeMap, hDeallocate, hTracks'⟩
  rcases remove_deallocated hKept.tables hMounted memory hLt
      hSector hDeallocate with
    ⟨disk', hRun, hTables', hMounted', hMap, hDir, hFrame⟩
  have hFiles : disk'.fileSectors =
      FreeMapSector :: DirectorySector ::
        (disk.directory.remove name).2.fileSectors := by
    rw [Disk.fileSectors, hDir]
  have hOld : ∀ t ∈ disk.fileSectors,
      disk'.headerAt t = disk.headerAt t :=
    fun t ht => Disk.headerAt_congr
      (hFrame t (isPlain_of_mem hKept hMounted ht))
  refine ⟨disk', hRun, ?_, hMounted', hDir, hOld, hFrame⟩
  refine hKept.of_removed_file hTables' ?_ hOld ?_
  · intro t ht
    rw [hFiles] at ht
    exact hPerm.mem_iff.mpr (List.mem_cons_of_mem _ ht)
  · rw [hMap, hFiles]
    exact BitMap.tracks_clearBit hTracks'

/- What this says of a consistent disk. -/
theorem remove_spec
    (hDisk : disk.Consistent)
    (hMounted : fs.MountedOn disk)
    (memory : Memory)
    {i : Fin NumDirEntries}
    (hFind : disk.directory.findIndex name = some i) :
    ∃ disk',
      fs.remove memory disk name = some (true, disk') ∧
      disk'.Consistent ∧
      fs.MountedOn disk' ∧
      disk'.directory = (disk.directory.remove name).2 ∧
      (∀ s ∈ disk.fileSectors,
        disk'.headerAt s = disk.headerAt s) ∧
      ∀ s, fs.IsPlain s → disk.Agree disk' s := by
  rcases remove_accounted hDisk.accounted hMounted memory
      hFind with
    ⟨disk', hRun, hKept, hRest⟩
  exact ⟨disk', hRun, Disk.consistent_iff_accounted.mpr hKept,
    hRest⟩

end FileSystem

end Nachos
