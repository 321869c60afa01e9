import Nachos.FileSys.SingleFile

/-
  Which files a write can reach.

  Through a handle whose file is still there a write changes
  that file only.  Removing a file does not wait for its
  handles, so a write through an old handle can end up in a
  file that was created later and got the same sectors.

  Main declarations:
    * `Session.WritesOwnFile`
    * `Session.write_changes_own_file`
    * `Session.stale_write_changes_other_file`
-/

------------------------------------
-- Writes Through Live Handles
------------------------------------

namespace Nachos

open Bytes

/- The handle that a call writes through. -/
def Call.writer :
    Call → Option Nat
| .writeAt _ h _ _ _ => some h
| .write _ h _ _ => some h
| _ => none

namespace Session

/-
  A write from `s` to `t` stays in the file that its handle
  was opened on: the tables, the headers and all other files
  are as before.
-/
structure WritesOwnFile
    (s t : Session)
    (handle : Handle) : Prop where
  outside :
    ∀ x ∉ handle.file.hdr.sectors, s.disk.Agree t.disk x
  freeMap_eq : t.disk.freeMap = s.disk.freeMap
  directory_eq : t.disk.directory = s.disk.directory
  header_eq :
    ∀ f ∈ s.disk.fileSectors,
      t.disk.headerAt f = s.disk.headerAt f
  contents_eq :
    ∀ f ∈ s.disk.fileSectors,
      ¬ (handle.IsLive ∧ f = handle.sector) →
      t.disk.contents (s.disk.headerAt f) =
        s.disk.contents (s.disk.headerAt f)

theorem Valid.writesOwnFile
    {s t : Session}
    (hValid : s.Valid)
    {handle : Handle}
    (hMem : handle ∈ s.handles)
    (hLive : handle.IsLive)
    (hChange : s.disk.ChangesOnly t.disk handle.sector) :
    s.WritesOwnFile t handle where
  outside := by
    rw [(hValid.handle_live handle hMem hLive).2]
    exact hChange.outside
  freeMap_eq := hChange.freeMap_eq
  directory_eq := hChange.directory_eq
  header_eq := hChange.header_eq
  contents_eq := fun f hf hOther =>
    hChange.contents_eq f hf fun hEq => hOther ⟨hLive, hEq⟩

/-
  In a session that writes only through handles whose file
  has not been removed, every write stays in its file.
-/
theorem write_changes_own_file
    {s t : Session}
    (hReach : (system Handle.IsLive).Reachable s)
    {call : Call}
    (hAllowed : s.Allowed Handle.IsLive call)
    (hStep : s.step call = some t)
    {h : Nat}
    (hWriter : call.writer = some h)
    {handle : Handle}
    (hHandle : s.handles[h]? = some handle) :
    s.WritesOwnFile t handle := by
  have hValid := valid_of_reachable hReach
  have hMem := List.mem_of_getElem? hHandle
  cases call with
  | writeAt memory h' source numBytes position =>
      cases hWriter
      rcases hAllowed with
        ⟨handle', hHandle', hLive, hSource, hRange⟩
      cases hHandle.symm.trans hHandle'
      rcases hValid.writeAt hMem hLive memory hSource
          hRange with
        ⟨result, disk, hRun, _, hChange⟩
      simp only [step, hHandle, hRun, Option.bind_eq_bind,
        Option.bind_some, Option.some.injEq] at hStep
      subst hStep
      exact hValid.writesOwnFile hMem hLive hChange
  | write memory h' source numBytes =>
      cases hWriter
      rcases hAllowed with
        ⟨handle', hHandle', hLive, hSource, hRange⟩
      cases hHandle.symm.trans hHandle'
      rcases hValid.writeAt hMem hLive memory hSource
          hRange with
        ⟨result, disk, hRun, _, hChange⟩
      simp only [step, hHandle, OpenFile.write, hRun,
        Option.bind_eq_bind, Option.bind_some,
        Option.some.injEq] at hStep
      subst hStep
      exact hValid.writesOwnFile hMem hLive hChange
  | create | openFile | remove | readAt | read | seek =>
      cases hWriter

/- A program writes one byte of "a" and "b" stays as it is. -/
theorem write_changes_own_file_a :
    ∃ (s t : Session) (handle : Handle) (f : Nat),
      (system Handle.IsLive).Reachable s ∧
      s.step (.writeAt Memory.zero 0 [1] 1 0) = some t ∧
      s.handles[0]? = some handle ∧
      f ∈ s.disk.directory.fileSectors ∧
      f ≠ handle.sector ∧
      t.disk.contents (s.disk.headerAt f) =
        s.disk.contents (s.disk.headerAt f) := by
  rcases exists_open_session Handle.IsLive with
    ⟨_, ⟨fs, disk, handles⟩, i, i', _, _, _, _, _, hReach,
      hSingle, hHandles⟩
  dsimp only at hHandles hSingle
  subst hHandles
  rcases hSingle.create_second Memory.zero with
    ⟨disk', f, hCreate, hf, hOther⟩
  have hReach' : (system Handle.IsLive).Reachable
      ⟨fs, disk', [⟨⟨disk.headerAt i, 0⟩, i, true⟩]⟩ := by
    refine hReach.of_step
      (a := .create Memory.zero CString.b 1) ?_ ?_
    · exact ⟨by decide, by decide⟩
    · simp [system, step, hCreate]
  have hAllowed : Session.Allowed Handle.IsLive
      ⟨fs, disk', [⟨⟨disk.headerAt i, 0⟩, i, true⟩]⟩
      (.writeAt Memory.zero 0 [1] 1 0) :=
    ⟨_, rfl, rfl, by simp, by simp [InRange]⟩
  rcases (valid_of_reachable hReach').step hAllowed with
    ⟨t, hStep, _⟩
  have hWrites :=
    write_changes_own_file hReach' hAllowed hStep rfl rfl
  exact ⟨_, t, _, f, hReach', hStep, rfl, hf, hOther,
    hWrites.contents_eq f (Disk.mem_fileSectors_of_mem hf)
      fun hSame => hOther hSame.2⟩

end Session

end Nachos

------------------------------------
-- Sectors That Are Used Again
------------------------------------

namespace Nachos

namespace Disk

variable {disk disk' : Disk}

/- Disks with the same owners have the same free sectors. -/
theorem Consistent.freeBits_eq
    (hDisk : disk.Consistent)
    (hDisk' : disk'.Consistent)
    (hOwned : disk'.owned = disk.owned) :
    disk'.freeMap.freeBits = disk.freeMap.freeBits := by
  refine List.filter_congr fun x _ => ?_
  have hBits : disk'.freeMap.bit x = true ↔
      disk.freeMap.bit x = true := by
    rw [← BitMap.isMarked_val, ← BitMap.isMarked_val,
      hDisk'.tracks.marked_iff, hDisk.tracks.marked_iff,
      hOwned]
  rw [Bool.eq_iff_iff.mpr hBits]

/- Without files only the system files own sectors. -/
theorem owned_eq_of_empty
    (hEmpty : disk.directory.fileSectors = [])
    (hEmpty' : disk'.directory.fileSectors = [])
    (hHeaders :
      ∀ s ∈ disk.fileSectors,
        disk'.headerAt s = disk.headerAt s) :
    disk'.owned = disk.owned := by
  have hFiles : disk'.fileSectors = disk.fileSectors := by
    rw [fileSectors, fileSectors, hEmpty, hEmpty']
  rw [owned, owned, hFiles]
  refine List.flatMap_congr fun s hs => ?_
  rw [sectorsOf, sectorsOf, hHeaders s hs]

end Disk

namespace FileSystem

variable {fs : FileSystem}
variable {disk : Disk}

/- Removing that file gives its sectors back. -/
theorem remove_single
    {name : CString}
    {i i' : Fin NumSectors}
    (hSingle : fs.SingleFile disk name i i')
    (memory : Memory) :
    ∃ disk',
      fs.remove memory disk name = some (true, disk') ∧
      disk'.Consistent ∧
      fs.MountedOn disk' ∧
      disk'.directory.fileSectors = [] ∧
      ∀ s ∈ disk.fileSectors,
        disk'.headerAt s = disk.headerAt s := by
  rcases hSingle.found with ⟨j, hFind, _⟩
  rcases remove_spec hSingle.consistent hSingle.mounted
      memory hFind with
    ⟨disk', hRun, hDisk', hMounted', hDirectory, hOld, _⟩
  have hLeft :=
    (Directory.fileSectors_remove hFind).length_eq
  rw [hSingle.files, ← hDirectory, List.length_singleton,
    List.length_cons] at hLeft
  exact ⟨disk', hRun, hDisk', hMounted',
    List.length_eq_zero_iff.mp (by omega), hOld⟩

end FileSystem

/-
  Two headers that describe the same byte of the disk: what
  is written through one of them is read through the other.
-/
theorem OpenFile.write_shared_byte
    {hdr hdr' : FileHeader}
    (hWf : hdr.WellFormed)
    (hLength : hdr.length = 1)
    (hLength' : hdr'.length = 1)
    {s : Nat}
    (hSectors : hdr.sectors = [s])
    (hSectors' : hdr'.sectors = [s])
    (memory : Memory)
    (disk : Disk) :
    ∃ x disk',
      (OpenFile.mk hdr 0).writeAt memory disk [x] 1 0 =
        some (1, disk') ∧
      disk'.contents hdr' ≠ disk.contents hdr' := by
  have hHdr : hdr.Same hdr' :=
    ⟨hLength'.trans hLength.symm,
      hSectors'.trans hSectors.symm⟩
  have hSame := hHdr.contents_eq hWf
  have hNodup : hdr.sectors.Nodup := by
    rw [hSectors]
    exact List.nodup_singleton s
  have hOne : (disk.contents hdr).length = 1 := by
    rw [Disk.length_contents, hLength]
  rcases List.length_eq_one_iff.mp hOne with ⟨y, hy⟩
  have hSource : (1 : Int) ≤ [y + 1].length := by
    simp
  have hEnd : ((0 : Nat) : Int) + 1 < 2 ^ 31 := by
    decide
  rcases OpenFile.writeAt_spec
      (show (OpenFile.mk hdr 0).hdr.WellFormed from hWf)
      hNodup memory disk hSource hEnd with
    ⟨disk', hRun, hContents, _⟩
  refine ⟨y + 1, disk', ?_, ?_⟩
  · rw [hLength] at hRun
    exact hRun
  · rw [hSame, hSame, hContents, hy]
    simp [FixedArray.write, FixedArray.count]

end Nachos

------------------------------------
-- A Write Through an Old Handle
------------------------------------

namespace Nachos

open Bytes

namespace Session

/- Remove "a", keep its handle and create "b". -/
theorem exists_stale_session :
    ∃ (s : Session) (hdr : FileHeader)
      (i i' : Fin NumSectors),
      (system fun _ => True).Reachable s ∧
      s.fs.SingleFile s.disk CString.b i i' ∧
      s.handles = [⟨⟨hdr, 0⟩, i, false⟩] ∧
      hdr.WellFormed ∧
      hdr.length = 1 ∧
      hdr.sectors = [i'.1] := by
  rcases exists_open_session (fun _ => True) with
    ⟨disk₀, ⟨fs, disk₁, handles⟩, i, i', rest, hDisk₀,
      hEmpty₀, hFree, hOld₁, hReach₁, hSingle₁, hHandles⟩
  dsimp only at hOld₁ hSingle₁ hHandles
  subst hHandles
  rcases FileSystem.remove_single hSingle₁ Memory.zero with
    ⟨disk₂, hRemove, hDisk₂, hMounted₂, hEmpty₂, hOld₂⟩
  -- the free sectors are again those that "a" was made from
  have hOwned : disk₂.owned = disk₀.owned := by
    refine Disk.owned_eq_of_empty hEmpty₀ hEmpty₂ ?_
    intro x hx
    rw [← hOld₁ x hx]
    refine hOld₂ x ?_
    rw [Disk.fileSectors, hEmpty₀] at hx
    exact List.mem_append_left
      disk₁.directory.fileSectors hx
  have hFree₂ := (hDisk₀.freeBits_eq hDisk₂ hOwned).trans
    hFree
  rcases FileSystem.create_on_empty hDisk₂ hMounted₂ hEmpty₂
      Memory.zero CString.b hFree₂ with
    ⟨disk₃, hCreate, hSingle₃, _⟩
  rcases hSingle₁.found with ⟨j, hFind, hSector⟩
  have hNumber := (hSingle₁.consistent.find_eq hFind).2
  rw [hSector] at hNumber
  have hReach₂ : (system fun _ => True).Reachable
      ⟨fs, disk₂, [⟨⟨disk₁.headerAt i, 0⟩, i, false⟩]⟩ := by
    refine hReach₁.of_step
      (a := .remove Memory.zero CString.a) trivial ?_
    simp [system, step, hRemove, hNumber, Handle.expire]
  refine ⟨⟨fs, disk₃, [⟨⟨disk₁.headerAt i, 0⟩, i, false⟩]⟩,
    disk₁.headerAt i, i, i', ?_, hSingle₃, rfl,
    hSingle₁.wellFormed, hSingle₁.length_eq,
    hSingle₁.sectors_eq⟩
  refine hReach₂.of_step
    (a := .create Memory.zero CString.b 1) ?_ ?_
  · exact ⟨by decide, by decide⟩
  · simp [system, step, hCreate]

/-
  A program opens "a", removes it, creates "b" and writes
  through the handle of "a": the contents of "b" change.
-/
theorem stale_write_changes_other_file :
    ∃ (s t : Session) (call : Call) (handle : Handle),
      (system fun _ => True).Reachable s ∧
      s.Allowed (fun _ => True) call ∧
      s.step call = some t ∧
      call.writer = some 0 ∧
      s.handles[0]? = some handle ∧
      ¬ s.WritesOwnFile t handle := by
  rcases exists_stale_session with
    ⟨⟨fs, disk, handles⟩, hdr, i, i', hReach, hSingle,
      hHandles, hWf, hLength, hSectors⟩
  dsimp only at hSingle hHandles
  subst hHandles
  rcases OpenFile.write_shared_byte hWf hLength
      hSingle.length_eq hSectors hSingle.sectors_eq
      Memory.zero disk with
    ⟨x, disk', hWrite, hChanged⟩
  refine ⟨_, ⟨fs, disk', [⟨⟨hdr, 0⟩, i, false⟩]⟩,
    .writeAt Memory.zero 0 [x] 1 0, _, hReach, ?_, ?_, rfl,
    rfl, ?_⟩
  · exact ⟨_, rfl, trivial, by simp, by simp [InRange]⟩
  · simp [step, hWrite]
  · intro hOwn
    refine hChanged (hOwn.contents_eq i ?_ ?_)
    · exact Disk.mem_fileSectors_of_mem
        (by simp [hSingle.files])
    · rintro ⟨hLive, _⟩
      exact Bool.noConfusion hLive

end Session

end Nachos
