import Nachos.FileSys.Session

/-
  The smallest uses of the file system: a file of one byte
  on a freshly formatted disk, and a second one beside it.

  Main declarations:
    * `FileSystem.SingleFile`
    * `FileSystem.create_on_empty`
    * `Session.exists_open_session`
-/

------------------------------------
-- One File
------------------------------------

namespace Nachos

namespace FileSystem

variable {fs : FileSystem}
variable {disk : Disk}
variable {i i' : Fin NumSectors}

/- A file of one byte on a disk that has no other files. -/
structure SingleFile
    (fs : FileSystem)
    (disk : Disk)
    (name : CString)
    (i i' : Fin NumSectors) : Prop where
  consistent : disk.Consistent
  mounted : fs.MountedOn disk
  found :
    ∃ j, disk.directory.findIndex name = some j ∧
      (disk.directory.table j).sector.toNat = i
  files : disk.directory.fileSectors = [i.1]
  length_eq : (disk.headerAt i).length = 1
  sectors_eq : (disk.headerAt i).sectors = [i'.1]

theorem create_on_empty
    (hDisk : disk.Consistent)
    (hMounted : fs.MountedOn disk)
    (hEmpty : disk.directory.fileSectors = [])
    (memory : Memory)
    (name : CString)
    {rest : List (Fin NumSectors)}
    (hFree : disk.freeMap.freeBits = i :: i' :: rest) :
    ∃ disk',
      fs.create memory disk name 1 = some (true, disk') ∧
      fs.SingleFile disk' name i i' ∧
      ∀ s ∈ disk.fileSectors,
        disk'.headerAt s = disk.headerAt s := by
  have hAbsent := Disk.findIndex_of_empty hEmpty name
  rcases hDisk.room_of_empty hEmpty with
    ⟨_, _, _, j, _, hEntry⟩
  rcases create_spec hDisk hMounted memory
      (show 1 ≤ MaxFileSize by decide) hAbsent hFree hEntry
      (show FileHeader.sectorsFor 1 ≤ _ by
        rw [show FileHeader.sectorsFor 1 = 1 from rfl,
          List.length_cons]
        omega) with
    ⟨disk', hRun, _, hDisk', hMounted', hDirectory, hLength,
      hSectors, hOld, _⟩
  have hFiles :=
    Directory.fileSectors_set_assign hEntry name i.2
  rw [hEmpty, ← hDirectory] at hFiles
  refine ⟨disk', hRun,
    ⟨hDisk', hMounted', ⟨j, ?_, ?_⟩,
      List.perm_singleton.mp hFiles, hLength, hSectors⟩,
    hOld⟩
  · rw [hDirectory]
    exact Directory.findIndex_set_assign hAbsent j i
  · rw [hDirectory, Directory.table_set]
    exact DirectoryEntry.sector_assign _ _ i.2

/- The names differ in their first character. -/
theorem not_named_both
    {e : DirectoryEntry}
    (hA : e.isNamed CString.a = true) :
    ¬ e.isNamed CString.b = true := by
  intro hB
  rw [DirectoryEntry.isNamed, Bool.and_eq_true, beq_iff_eq,
    strncmp, strncmpFrom_eq_zero_iff] at hA hB
  exact absurd (hA.2.symm.trans hB.2) (by decide)

/- The other name is not in use. -/
theorem SingleFile.absent
    (hSingle : fs.SingleFile disk CString.a i i') :
    disk.directory.findIndex CString.b = none := by
  cases hFind : disk.directory.findIndex CString.b with
  | none => rfl
  | some k =>
      rcases hSingle.found with ⟨j, hFound, _⟩
      have hk := Directory.findIndex_eq_some hFind
      have hj := Directory.findIndex_eq_some hFound
      have hOne := congrArg List.length hSingle.files
      rw [Directory.fileSectors, List.length_map] at hOne
      rcases List.length_eq_one_iff.mp hOne with ⟨x, hx⟩
      have hIn : ∀ y, (disk.directory.table y).isInUse = true →
          y = x := by
        intro y hy
        rw [← List.mem_singleton, ← hx]
        exact List.mem_filter.mpr ⟨List.mem_finRange y, hy⟩
      have hNot := not_named_both hj.1
      rw [hIn j hj.2, ← hIn k hk.2] at hNot
      exact absurd hk.1 hNot

/- A second file fits beside it. -/
theorem SingleFile.create_second
    (hSingle : fs.SingleFile disk CString.a i i')
    (memory : Memory) :
    ∃ disk' k,
      fs.create memory disk CString.b 1 = some (true, disk') ∧
      k ∈ disk'.directory.fileSectors ∧ k ≠ i.1 := by
  have hDisk := hSingle.consistent
  rcases hDisk.exists_room
      (by
        rw [hDisk.length_owned, hSingle.files,
          List.flatMap_singleton, Disk.sectorsOf,
          hSingle.sectors_eq, List.length_cons,
          List.length_singleton]
        decide)
      (by
        rw [hSingle.files, List.length_singleton]
        decide) with
    ⟨k, k', rest, j, hFree, hEntry⟩
  rcases create_spec hDisk hSingle.mounted memory
      (show 1 ≤ MaxFileSize by decide) hSingle.absent hFree
      hEntry
      (show FileHeader.sectorsFor 1 ≤ (k' :: rest).length from
        Nat.succ_le_succ (Nat.zero_le _)) with
    ⟨disk', hRun, _, _, _, hDirectory, _⟩
  have hFiles :=
    Directory.fileSectors_set_assign hEntry CString.b k.2
  rw [← hDirectory] at hFiles
  refine ⟨disk', k.1, hRun,
    hFiles.mem_iff.mpr List.mem_cons_self, ?_⟩
  intro hSame
  refine hDisk.accounted.not_mem_of_clear
    (BitMap.bit_of_freeBits_eq_cons hFree)
    (Disk.mem_fileSectors_of_mem (s := i.1) ?_) ?_
  · rw [hSingle.files]
    exact List.mem_singleton_self _
  · rw [hSame]
    exact List.mem_cons_self

theorem SingleFile.wellFormed
    {name : CString}
    (hSingle : fs.SingleFile disk name i i') :
    (disk.headerAt i).WellFormed :=
  hSingle.consistent.wellFormed _
    (Disk.mem_fileSectors_of_mem (by simp [hSingle.files]))

end FileSystem

end Nachos

------------------------------------
-- Opening the File
------------------------------------

namespace Nachos

namespace Session

/- A program formats the disk, creates "a" and opens it. -/
theorem exists_open_session
    (canWrite : Handle → Prop) :
    ∃ (disk₀ : Disk) (s : Session)
      (i i' : Fin NumSectors) (rest : List (Fin NumSectors)),
      disk₀.Consistent ∧
      disk₀.directory.fileSectors = [] ∧
      disk₀.freeMap.freeBits = i :: i' :: rest ∧
      (∀ x ∈ disk₀.fileSectors,
        s.disk.headerAt x = disk₀.headerAt x) ∧
      (system canWrite).Reachable s ∧
      s.fs.SingleFile s.disk CString.a i i' ∧
      s.handles = [⟨⟨s.disk.headerAt i, 0⟩, i, true⟩] := by
  rcases FileSystem.format_spec Memory.zero
      (fun _ _ => 0) with
    ⟨fs, disk₀, hFormat, hDisk₀, hMounted₀, hEmpty₀⟩
  rcases hDisk₀.room_of_empty hEmpty₀ with
    ⟨i, i', rest, _, hFree, _⟩
  rcases FileSystem.create_on_empty hDisk₀ hMounted₀ hEmpty₀
      Memory.zero CString.a hFree with
    ⟨disk₁, hCreate, hSingle, hOld⟩
  have hReach₀ : (system canWrite).Reachable
      ⟨fs, disk₀, []⟩ :=
    .of_init ⟨rfl, _, _, hFormat⟩
  have hReach₁ : (system canWrite).Reachable
      ⟨fs, disk₁, []⟩ := by
    refine hReach₀.of_step
      (a := .create Memory.zero CString.a 1) ?_ ?_
    · exact ⟨by decide, by decide⟩
    · simp [system, step, hCreate]
  rcases hSingle.found with ⟨j, hFind, hSector⟩
  have hOpen := FileSystem.openFile_of_found
    hSingle.consistent hSingle.mounted Memory.zero hFind
  have hNumber := (hSingle.consistent.find_eq hFind).2
  rw [hSector] at hOpen hNumber
  refine ⟨disk₀, ⟨fs, disk₁,
      [⟨⟨disk₁.headerAt i, 0⟩, i, true⟩]⟩, i, i', rest,
    hDisk₀, hEmpty₀, hFree, hOld, ?_, hSingle, rfl⟩
  refine hReach₁.of_step
    (a := .openFile Memory.zero CString.a) trivial ?_
  simp [system, step, hOpen, hNumber]

end Session

end Nachos
