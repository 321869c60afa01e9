import Nachos.FileSys.SingleFile

/-
  Creating and removing a file leaves the other files alone,
  and removing undoes creating.

  Main declarations:
    * `Directory.files`
    * `Disk.KeepsFile`
    * `Directory.find_add`
    * `Directory.find_remove`
    * `FileSystem.create_remove_frame`
-/

------------------------------------
-- Names That Are Equal
------------------------------------

namespace Nachos

namespace DirectoryEntry

theorem isNamed_eq_true
    {e : DirectoryEntry}
    {name : CString} :
    e.isNamed name = true ↔
      e.isInUse = true ∧
        strncmp e.nameChar name.char FileNameMaxLen = 0 := by
  rw [isNamed, Bool.and_eq_true, beq_iff_eq]

theorem isNamed_of_common
    {d e : DirectoryEntry}
    {name other : CString}
    (hName : d.isNamed name = true)
    (hOther : d.isNamed other = true)
    (hEntry : e.isNamed other = true) :
    e.isNamed name = true := by
  rw [isNamed_eq_true, strncmp, strncmpFrom_eq_zero_iff]
    at hName hOther hEntry ⊢
  exact ⟨hEntry.1,
    (hEntry.2.trans hOther.2.symm).trans hName.2⟩

end DirectoryEntry

end Nachos

------------------------------------
-- Lookups
------------------------------------

namespace Nachos

namespace Directory

variable {tableSize : Nat}
variable {d : Directory tableSize}
variable {name other : CString}

/- The names and header sectors of the files. -/
def files
    (d : Directory tableSize) :
    Set ((Fin (FileNameMaxLen + 1) → Bytes.Byte) ×
      BitVec 32) :=
  { file | ∃ i, (d.table i).isInUse = true ∧
      file = ((d.table i).name, (d.table i).sector) }

theorem table_set_of_ne
    (d : Directory tableSize)
    {i j : Fin tableSize}
    (hNe : j ≠ i)
    (e : DirectoryEntry) :
    (d.set i e).table j = d.table j :=
  Function.update_of_ne hNe ..

/- Entry `k` is found as long as nothing before it matches. -/
theorem findIndex_of_imp
    {d' : Directory tableSize}
    {k : Fin tableSize}
    (hFind : d.findIndex other = some k)
    (hNamed : (d'.table k).isNamed other = true)
    (hImp :
      ∀ i, (d'.table i).isNamed other = true →
        (d.table i).isNamed other = true) :
    d'.findIndex other = some k := by
  rw [findIndex, List.find?_eq_some_iff_append] at hFind ⊢
  rcases hFind with ⟨_, before, after, hSplit, hBefore⟩
  refine ⟨hNamed, before, after, hSplit, ?_⟩
  intro i hi
  have hNot := hBefore i hi
  simp only [Bool.not_eq_true'] at hNot ⊢
  cases hCase : (d'.table i).isNamed other with
  | false => rfl
  | true =>
      rw [hImp i hCase] at hNot
      exact Bool.noConfusion hNot

/- The same entry is found, with the same sector in it. -/
theorem find_of_findIndex
    {d' : Directory tableSize}
    {k : Fin tableSize}
    (hFind : d.findIndex other = some k)
    (hFind' : d'.findIndex other = some k)
    (hTable : d'.table k = d.table k) :
    d'.find other = d.find other := by
  simp only [find, hFind, hFind', hTable]

/- Adding a file does not hide another one. -/
theorem find_add
    (hAbsent : d.findIndex name = none)
    {j k : Fin tableSize}
    (hFree : d.freeIndex = some j)
    (newSector : Int)
    (hFind : d.findIndex other = some k) :
    (d.set j ((d.table j).assign name newSector)).find other =
      d.find other := by
  have hUnused := freeIndex_eq_some hFree
  rcases findIndex_eq_some hFind with ⟨hNamed, hUsed⟩
  have hNe : k ≠ j := by
    rintro rfl
    rw [hUnused] at hUsed
    exact Bool.noConfusion hUsed
  have hTable := d.table_set_of_ne hNe
    ((d.table j).assign name newSector)
  refine find_of_findIndex hFind
    (findIndex_of_imp hFind ?_ ?_) hTable
  · rwa [hTable]
  · intro i hi
    by_cases hEq : i = j
    · -- both names are equal, so entry `k` had the new name
      subst hEq
      rw [table_set] at hi
      have hTaken := DirectoryEntry.isNamed_of_common
        (DirectoryEntry.isNamed_assign _ name newSector) hi
        hNamed
      exact absurd hTaken (List.find?_eq_none.mp hAbsent k
        (List.mem_finRange k))
    · rwa [table_set_of_ne d hEq] at hi

theorem remove_of_found
    {i : Fin tableSize}
    (hFind : d.findIndex name = some i) :
    (d.remove name).2 =
      d.set i { d.table i with inUse := 0 } := by
  simp only [remove, hFind]

/- Removing a file does not hide another one. -/
theorem find_remove
    {i k : Fin tableSize}
    (hFind : d.findIndex name = some i)
    (hOther : d.findIndex other = some k)
    (hNe : k ≠ i) :
    ((d.remove name).2).find other = d.find other := by
  rw [remove_of_found hFind]
  have hTable := d.table_set_of_ne hNe
    { d.table i with inUse := 0 }
  refine find_of_findIndex hOther
    (findIndex_of_imp hOther ?_ ?_) hTable
  · rw [hTable]
    exact (findIndex_eq_some hOther).1
  · intro l hl
    by_cases hEq : l = i
    · subst hEq
      rw [table_set, DirectoryEntry.isNamed_eq_true] at hl
      exact absurd hl.1 (by simp [DirectoryEntry.isInUse])
    · rwa [table_set_of_ne d hEq] at hl

end Directory

end Nachos

------------------------------------
-- Files That Are Kept
------------------------------------

namespace Nachos

namespace Disk

variable {disk disk' : Disk}

/-
  The file in entry `k` is as it was: the entry, the header
  and every byte of the contents.
-/
structure KeepsFile
    (disk disk' : Disk)
    (k : Fin NumDirEntries) : Prop where
  entry_eq :
    disk'.directory.table k = disk.directory.table k
  header_eq :
    disk'.headerAt (disk.directory.table k).sector.toNat =
      disk.headerAt (disk.directory.table k).sector.toNat
  contents_eq :
    disk'.contents (disk'.headerAt
        (disk.directory.table k).sector.toNat) =
      disk.contents (disk.headerAt
        (disk.directory.table k).sector.toNat)

theorem KeepsFile.of_agree
    (hDisk : disk.Consistent)
    {k : Fin NumDirEntries}
    (hUsed : (disk.directory.table k).isInUse = true)
    (hEntry :
      disk'.directory.table k = disk.directory.table k)
    (hAgree :
      ∀ x ∈ disk.sectorsOf
        (disk.directory.table k).sector.toNat,
        disk.Agree disk' x) :
    disk.KeepsFile disk' k := by
  have hFile : (disk.directory.table k).sector.toNat ∈
      disk.fileSectors :=
    mem_fileSectors_of_mem
      ((disk.directory.mem_fileSectors_iff _).mpr
        ⟨k, hUsed, rfl⟩)
  have hHeader := headerAt_congr
    (hAgree _ List.mem_cons_self)
  refine ⟨hEntry, hHeader, ?_⟩
  rw [hHeader]
  exact contents_congr (hDisk.wellFormed _ hFile) fun x hx =>
    hAgree x (List.mem_cons_of_mem _ hx)

/- Free maps are equal when the same sectors are owned. -/
theorem Consistent.bit_eq
    (hDisk : disk.Consistent)
    (hDisk' : disk'.Consistent)
    (hOwned : ∀ s, s ∈ disk'.owned ↔ s ∈ disk.owned)
    (i : Fin NumSectors) :
    disk'.freeMap.bit i = disk.freeMap.bit i := by
  rw [Bool.eq_iff_iff, ← BitMap.isMarked_val,
    ← BitMap.isMarked_val, hDisk'.tracks.marked_iff,
    hDisk.tracks.marked_iff]
  exact hOwned i

end Disk

namespace FileSystem

variable {fs : FileSystem}
variable {disk disk' : Disk}
variable {name : CString}

/- Files of the directory are outside of the system files. -/
theorem isPlain_of_file
    (hDisk : disk.Consistent)
    (hMounted : fs.MountedOn disk)
    {s x : Nat}
    (hs : s ∈ disk.directory.fileSectors)
    (hx : x ∈ disk.sectorsOf s) :
    fs.IsPlain x := by
  have hFile := Disk.mem_fileSectors_of_mem hs
  have hNe := hDisk.ne_system hs
  have hNodup := hDisk.tracks.nodup
  refine isPlain_of_not_mem hMounted ?_ ?_
  · intro hMem
    exact Ownership.not_mem_of_ne hNodup hFile
      disk.freeMapSector_mem hNe.1.symm hx
      (List.mem_cons_of_mem _ hMem)
  · intro hMem
    exact Ownership.not_mem_of_ne hNodup hFile
      disk.directorySector_mem hNe.2.symm hx
      (List.mem_cons_of_mem _ hMem)

/- What a call that creates a file has done. -/
theorem create_inv
    (hDisk : disk.Consistent)
    (hMounted : fs.MountedOn disk)
    {memory : Memory}
    {size : Nat}
    (hSize : size ≤ MaxFileSize)
    (hRun :
      fs.create memory disk name size = some (true, disk')) :
    ∃ (i : Fin NumSectors) (j : Fin NumDirEntries),
      i.1 ∉ disk.owned ∧
      disk.directory.findIndex name = none ∧
      disk.directory.freeIndex = some j ∧
      disk'.Consistent ∧
      fs.MountedOn disk' ∧
      disk'.directory =
        disk.directory.set j
          ((disk.directory.table j).assign name i) ∧
      (∀ s ∈ disk.fileSectors,
        disk'.headerAt s = disk.headerAt s) ∧
      ∀ s, s ≠ i.1 → fs.IsPlain s → disk.Agree disk' s := by
  rcases create_cases hDisk hMounted memory name size with
    ⟨_, hFail⟩ | ⟨i, rest, j, hAbsent, hFree, hEntry, hRoom⟩
  · rw [hFail] at hRun
    cases hRun
  · rcases create_spec hDisk hMounted memory hSize hAbsent
        hFree hEntry hRoom with
      ⟨disk₁, hSpec, _, hDisk₁, hMounted₁, hDirectory, _, _,
        hOld, hFrame⟩
    rw [hSpec] at hRun
    cases hRun
    have hClear := BitMap.bit_of_freeBits_eq_cons hFree
    refine ⟨i, j, ?_, hAbsent, hEntry, hDisk₁, hMounted₁,
      hDirectory, hOld, hFrame⟩
    rw [← hDisk.tracks.marked_iff, BitMap.isMarked_val, hClear]
    exact Bool.noConfusion

theorem create_keepsFile
    (hDisk : disk.Consistent)
    (hMounted : fs.MountedOn disk)
    {i : Fin NumSectors}
    {j k : Fin NumDirEntries}
    (hFresh : i.1 ∉ disk.owned)
    (hEntry : disk.directory.freeIndex = some j)
    (hDirectory :
      disk'.directory =
        disk.directory.set j
          ((disk.directory.table j).assign name i))
    (hFrame :
      ∀ s, s ≠ i.1 → fs.IsPlain s → disk.Agree disk' s)
    (hUsed : (disk.directory.table k).isInUse = true) :
    disk.KeepsFile disk' k := by
  have hUnused := Directory.freeIndex_eq_some hEntry
  have hNe : k ≠ j := by
    rintro rfl
    rw [hUnused] at hUsed
    exact Bool.noConfusion hUsed
  have hMem := (disk.directory.mem_fileSectors_iff _).mpr
    ⟨k, hUsed, rfl⟩
  refine Disk.KeepsFile.of_agree hDisk hUsed ?_ ?_
  · rw [hDirectory, Directory.table_set_of_ne _ hNe]
  · intro x hx
    refine hFrame x ?_ (isPlain_of_file hDisk hMounted hMem hx)
    rintro rfl
    exact hFresh (Disk.mem_owned_of_mem
      (Disk.mem_fileSectors_of_mem hMem) hx)

/- What a call that removes a file has done. -/
theorem remove_inv
    (hDisk : disk.Consistent)
    (hMounted : fs.MountedOn disk)
    {memory : Memory}
    (hRun : fs.remove memory disk name = some (true, disk')) :
    ∃ i,
      disk.directory.findIndex name = some i ∧
      disk'.directory = (disk.directory.remove name).2 ∧
      ∀ s, fs.IsPlain s → disk.Agree disk' s := by
  cases hFind : disk.directory.findIndex name with
  | none =>
      rw [remove_of_absent hDisk.tables hMounted memory hFind]
        at hRun
      cases hRun
  | some i =>
      rcases remove_spec hDisk hMounted memory hFind with
        ⟨disk₁, hSpec, _, _, hDirectory, _, hFrame⟩
      rw [hSpec] at hRun
      cases hRun
      exact ⟨i, rfl, hDirectory, hFrame⟩

theorem remove_keepsFile
    (hDisk : disk.Consistent)
    (hMounted : fs.MountedOn disk)
    {i k : Fin NumDirEntries}
    (hFind : disk.directory.findIndex name = some i)
    (hDirectory :
      disk'.directory = (disk.directory.remove name).2)
    (hFrame : ∀ s, fs.IsPlain s → disk.Agree disk' s)
    (hUsed : (disk.directory.table k).isInUse = true)
    (hNe : k ≠ i) :
    disk.KeepsFile disk' k := by
  have hMem := (disk.directory.mem_fileSectors_iff _).mpr
    ⟨k, hUsed, rfl⟩
  refine Disk.KeepsFile.of_agree hDisk hUsed ?_ ?_
  · rw [hDirectory, Directory.remove_of_found hFind,
      Directory.table_set_of_ne _ hNe]
  · intro x hx
    exact hFrame x (isPlain_of_file hDisk hMounted hMem hx)

end FileSystem

end Nachos

------------------------------------
-- Creating and Removing
------------------------------------

namespace Nachos

namespace Directory

variable {tableSize : Nat}
variable {d d' : Directory tableSize}

/- The same entries are in use, with the same contents. -/
def SameFiles
    (d d' : Directory tableSize) : Prop :=
  ∀ k,
    (d'.table k).isInUse = (d.table k).isInUse ∧
      ((d.table k).isInUse = true → d'.table k = d.table k)

namespace SameFiles

theorem files_eq
    (hSame : SameFiles d d') :
    d'.files = d.files := by
  apply Set.ext
  intro file
  constructor
  · rintro ⟨k, hUsed, hFile⟩
    rw [(hSame k).1] at hUsed
    rw [(hSame k).2 hUsed] at hFile
    exact ⟨k, hUsed, hFile⟩
  · rintro ⟨k, hUsed, hFile⟩
    rw [← (hSame k).2 hUsed] at hFile
    exact ⟨k, (hSame k).1.trans hUsed, hFile⟩

theorem mem_fileSectors
    (hSame : SameFiles d d')
    (s : Nat) :
    s ∈ d'.fileSectors ↔ s ∈ d.fileSectors := by
  rw [mem_fileSectors_iff, mem_fileSectors_iff]
  constructor
  · rintro ⟨k, hUsed, hSector⟩
    rw [(hSame k).1] at hUsed
    rw [(hSame k).2 hUsed] at hSector
    exact ⟨k, hUsed, hSector⟩
  · rintro ⟨k, hUsed, hSector⟩
    rw [← (hSame k).2 hUsed] at hSector
    exact ⟨k, (hSame k).1.trans hUsed, hSector⟩

end SameFiles

/- An entry that was free is used and freed again. -/
theorem sameFiles_remove_add
    {name : CString}
    (hAbsent : d.findIndex name = none)
    {j : Fin tableSize}
    (hFree : d.freeIndex = some j)
    (newSector : Int) :
    SameFiles d
      ((d.set j ((d.table j).assign name newSector)).remove
        name).2 := by
  rw [remove_of_found (findIndex_set_assign hAbsent j
    newSector)]
  intro k
  by_cases hEq : k = j
  · subst hEq
    rw [table_set, freeIndex_eq_some hFree]
    exact ⟨rfl, fun hUsed => Bool.noConfusion hUsed⟩
  · rw [table_set_of_ne _ hEq, table_set_of_ne _ hEq]
    exact ⟨rfl, fun _ => rfl⟩

end Directory

namespace Disk

variable {disk disk' : Disk}

theorem mem_owned_of_sameFiles
    (hSame : disk.directory.SameFiles disk'.directory)
    (hHeaders :
      ∀ s ∈ disk.fileSectors,
        disk'.headerAt s = disk.headerAt s)
    (x : Nat) :
    x ∈ disk'.owned ↔ x ∈ disk.owned := by
  have hFiles : ∀ s,
      s ∈ disk'.fileSectors ↔ s ∈ disk.fileSectors := by
    intro s
    simp only [fileSectors, List.mem_cons,
      hSame.mem_fileSectors]
  have hSectors : ∀ s ∈ disk.fileSectors,
      disk'.sectorsOf s = disk.sectorsOf s := by
    intro s hs
    rw [sectorsOf, sectorsOf, hHeaders s hs]
  simp only [owned, List.mem_flatMap]
  constructor
  · rintro ⟨s, hs, hx⟩
    rw [hFiles] at hs
    exact ⟨s, hs, hSectors s hs ▸ hx⟩
  · rintro ⟨s, hs, hx⟩
    exact ⟨s, (hFiles s).mpr hs, (hSectors s hs).symm ▸ hx⟩

end Disk

namespace FileSystem

variable {fs : FileSystem}
variable {disk : Disk}

/-
  Neither creating nor removing a file touches the others, and
  removing a new file gives back the free map and the files
  there were before.
-/
theorem create_remove_frame
    (hDisk : disk.Consistent)
    (hMounted : fs.MountedOn disk)
    (memory : Memory)
    (name : CString) :
    (∀ (size : Int) (disk' : Disk),
      0 ≤ size → size ≤ MaxFileSize →
      fs.create memory disk name size = some (true, disk') →
        (∀ k, (disk.directory.table k).isInUse = true →
          disk.KeepsFile disk' k) ∧
        (∀ other, disk.directory.find other ≠ -1 →
          disk'.directory.find other =
            disk.directory.find other) ∧
        ∀ memory', ∃ disk'',
          fs.remove memory' disk' name =
            some (true, disk'') ∧
          (∀ i, disk''.freeMap.bit i = disk.freeMap.bit i) ∧
          disk''.directory.files = disk.directory.files) ∧
    ∀ disk' : Disk,
      fs.remove memory disk name = some (true, disk') →
        (∀ k, (disk.directory.table k).isInUse = true →
          disk.directory.findIndex name ≠ some k →
          disk.KeepsFile disk' k) ∧
        ∀ other, disk.directory.find other ≠ -1 →
          disk.directory.find other ≠
            disk.directory.find name →
          disk'.directory.find other =
            disk.directory.find other := by
  have hFound : ∀ other, disk.directory.find other ≠ -1 →
      ∃ k, disk.directory.findIndex other = some k := by
    intro other hOther
    rw [Ne, hDisk.find_eq_neg_one_iff] at hOther
    exact Option.ne_none_iff_exists'.mp hOther
  constructor
  · intro size disk' hMin hMax hRun
    rcases Int.eq_ofNat_of_zero_le hMin with ⟨size, rfl⟩
    rcases create_inv hDisk hMounted (by omega) hRun with
      ⟨i, j, hFresh, hAbsent, hEntry, hDisk', hMounted',
        hDirectory, hOld, hFrame⟩
    refine ⟨fun k hUsed => create_keepsFile hDisk hMounted
      hFresh hEntry hDirectory hFrame hUsed, ?_, ?_⟩
    · intro other hOther
      rcases hFound other hOther with ⟨k, hk⟩
      rw [hDirectory]
      exact Directory.find_add hAbsent hEntry i hk
    · intro memory'
      have hFind : disk'.directory.findIndex name = some j := by
        rw [hDirectory]
        exact Directory.findIndex_set_assign hAbsent j i
      rcases remove_spec hDisk' hMounted' memory' hFind with
        ⟨disk'', hRemove, hDisk'', _, hDirectory'', _, hFrame'⟩
      have hSame : disk.directory.SameFiles
          disk''.directory := by
        rw [hDirectory'', hDirectory]
        exact Directory.sameFiles_remove_add hAbsent hEntry i
      have hHeaders : ∀ s ∈ disk.fileSectors,
          disk''.headerAt s = disk.headerAt s := by
        intro s hs
        rw [Disk.headerAt_congr (hFrame' s
          (isPlain_of_mem hDisk.accounted hMounted hs)), hOld s hs]
      exact ⟨disk'', hRemove,
        hDisk.bit_eq hDisk''
          (Disk.mem_owned_of_sameFiles hSame hHeaders),
        hSame.files_eq⟩
  · intro disk' hRun
    rcases remove_inv hDisk hMounted hRun with
      ⟨i, hFind, hDirectory, hFrame⟩
    constructor
    · intro k hUsed hOther
      refine remove_keepsFile hDisk hMounted hFind hDirectory
        hFrame hUsed ?_
      rintro rfl
      exact hOther hFind
    · intro other hOther hNe
      rcases hFound other hOther with ⟨k, hk⟩
      rw [hDirectory]
      refine Directory.find_remove hFind hk ?_
      rintro rfl
      exact hNe (by simp only [Directory.find, hFind, hk])

/- The file "a" is kept while "b" comes and goes. -/
theorem create_remove_frame_beside_a :
    ∃ fs disk₀ disk disk' disk'' k,
      format Memory.zero (fun _ _ => 0) = some (fs, disk₀) ∧
      fs.create Memory.zero disk₀ CString.a 1 =
        some (true, disk) ∧
      disk.directory.findIndex CString.a = some k ∧
      fs.create Memory.zero disk CString.b 1 =
        some (true, disk') ∧
      disk.KeepsFile disk' k ∧
      disk'.directory.find CString.a =
        disk.directory.find CString.a ∧
      fs.remove Memory.zero disk' CString.b =
        some (true, disk'') ∧
      ∀ i, disk''.freeMap.bit i = disk.freeMap.bit i := by
  rcases format_spec Memory.zero (fun _ _ => 0) with
    ⟨fs, disk₀, hFormat, hDisk₀, hMounted₀, hEmpty⟩
  rcases hDisk₀.room_of_empty hEmpty with
    ⟨i, i', rest, _, hFree, _⟩
  rcases create_on_empty hDisk₀ hMounted₀ hEmpty Memory.zero
      CString.a hFree with
    ⟨disk, hCreate, hSingle, _⟩
  rcases hSingle.found with ⟨k, hFind, _⟩
  have hPresent : disk.directory.find CString.a ≠ -1 := by
    rw [Ne, hSingle.consistent.find_eq_neg_one_iff, hFind]
    exact Option.some_ne_none k
  rcases hSingle.create_second Memory.zero with
    ⟨disk', _, hSecond, _⟩
  rcases (create_remove_frame hSingle.consistent
      hSingle.mounted Memory.zero CString.b).1 1 disk'
      (by decide) (by decide) hSecond with
    ⟨hKeeps, hNames, hUndo⟩
  rcases hUndo Memory.zero with ⟨disk'', hRemove, hBits, _⟩
  exact ⟨fs, disk₀, disk, disk', disk'', k, hFormat, hCreate,
    hFind, hSecond,
    hKeeps k (Directory.findIndex_eq_some hFind).2,
    hNames CString.a hPresent, hRemove, hBits⟩

end FileSystem

end Nachos
