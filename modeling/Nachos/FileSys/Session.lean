import Nachos.FileSys.Operations
import Nachos.Lib.Transition

/-
  Sessions with the file system: runs of its operations and
  of transfers through open files, from a formatted disk on.

  A handle remembers the header sector of its file and
  whether that file has been removed since it was opened.
  Both are bookkeeping; the code keeps neither.

  Main declarations:
    * `Session.step`
    * `Session.system`
    * `Session.Valid.step`
    * `Session.ownership_of_reachable`
-/

------------------------------------
-- Calls
------------------------------------

namespace Nachos

open Bytes

/- An open file that a program holds. -/
structure Handle where
  file : OpenFile
  sector : Nat
  live : Bool

structure Session where
  fs : FileSystem
  disk : Disk
  handles : List Handle

/- The calls of a program; handles are given by position. -/
inductive Call where
  | create
      (memory : Memory)
      (name : CString)
      (initialSize : Int)
  | openFile (memory : Memory) (name : CString)
  | remove (memory : Memory) (name : CString)
  | readAt
      (memory : Memory)
      (handle : Nat)
      (numBytes position : Int)
  | writeAt
      (memory : Memory)
      (handle : Nat)
      (source : List Byte)
      (numBytes position : Int)
  | read
      (memory : Memory)
      (handle : Nat)
      (numBytes : Int)
  | write
      (memory : Memory)
      (handle : Nat)
      (source : List Byte)
      (numBytes : Int)
  | seek (handle : Nat) (position : Int)

namespace Handle

/- Note that the file with this header is being removed. -/
def expire
    (handle : Handle)
    (sector : Nat) :
    Handle :=
  { handle with
    live := handle.live && handle.sector != sector }

def IsLive
    (handle : Handle) : Prop :=
  handle.live = true

end Handle

namespace Session

/- Replace the file of a handle after its position moved. -/
def setFile
    (s : Session)
    (h : Nat)
    (handle : Handle)
    (file : OpenFile) :
    Session :=
  { s with
    handles := s.handles.set h { handle with file := file } }

/- The effect of a call; `none` is a failed assertion. -/
def step
    (s : Session) :
    Call → Option Session
| .create memory name initialSize => do
    let (_, disk) ←
      s.fs.create memory s.disk name initialSize
    some { s with disk := disk }
| .openFile memory name => do
    match ← s.fs.openFile memory s.disk name with
    | some file =>
        let sector := (s.disk.directory.find name).toNat
        some
          { s with
            handles := s.handles ++ [⟨file, sector, true⟩] }
    | none => some s
| .remove memory name => do
    let sector := (s.disk.directory.find name).toNat
    let (removed, disk) ← s.fs.remove memory s.disk name
    some
      { s with
        disk := disk
        handles :=
          if removed then
            s.handles.map (·.expire sector)
          else
            s.handles }
| .readAt memory h numBytes position => do
    let handle ← s.handles[h]?
    let _ ←
      handle.file.readAt memory s.disk numBytes position
    some s
| .writeAt memory h source numBytes position => do
    let handle ← s.handles[h]?
    let (_, disk) ←
      handle.file.writeAt memory s.disk source numBytes
        position
    some { s with disk := disk }
| .read memory h numBytes => do
    let handle ← s.handles[h]?
    let (_, _, file) ←
      handle.file.read memory s.disk numBytes
    some (s.setFile h handle file)
| .write memory h source numBytes => do
    let handle ← s.handles[h]?
    let (_, disk, file) ←
      handle.file.write memory s.disk source numBytes
    some { s.setFile h handle file with disk := disk }
| .seek h position => do
    let handle ← s.handles[h]?
    some (s.setFile h handle (handle.file.seek position))

/- Positions a program may use. -/
def InRange
    (numBytes position : Int) : Prop :=
  0 ≤ position ∧ position + numBytes < 2 ^ 31

/-
  Calls a program may make: sizes within the limit, positions
  in range, sources that hold the bytes to be written, and
  writes only through handles that meet a condition.
-/
def Allowed
    (canWrite : Handle → Prop)
    (s : Session) :
    Call → Prop
| .create _ _ initialSize =>
    0 ≤ initialSize ∧ initialSize ≤ MaxFileSize
| .openFile _ _ => True
| .remove _ _ => True
| .readAt _ h numBytes position =>
    ∃ handle, s.handles[h]? = some handle ∧
      InRange numBytes position
| .writeAt _ h source numBytes position =>
    ∃ handle, s.handles[h]? = some handle ∧
      canWrite handle ∧
      numBytes ≤ source.length ∧
      InRange numBytes position
| .read _ h numBytes =>
    ∃ handle, s.handles[h]? = some handle ∧
      InRange numBytes handle.file.seekPosition
| .write _ h source numBytes =>
    ∃ handle, s.handles[h]? = some handle ∧
      canWrite handle ∧
      numBytes ≤ source.length ∧
      InRange numBytes handle.file.seekPosition
| .seek h _ => ∃ handle, s.handles[h]? = some handle

/- Runs start from a freshly formatted disk. -/
def Formatted
    (s : Session) : Prop :=
  s.handles = [] ∧
    ∃ memory disk,
      FileSystem.format memory disk = some (s.fs, s.disk)

def system
    (canWrite : Handle → Prop) :
    Transition.System Session Call where
  init := Formatted
  allowed := Allowed canWrite
  step := step

end Session

end Nachos

------------------------------------
-- Valid Sessions
------------------------------------

namespace Nachos

open CInt

namespace Session

/-
  The disk is consistent, and a handle whose file has not
  been removed carries the header that is on the disk.
-/
structure Valid
    (s : Session) : Prop where
  consistent : s.disk.Consistent
  mounted : s.fs.MountedOn s.disk
  handle_wellFormed :
    ∀ handle ∈ s.handles, handle.file.hdr.WellFormed
  handle_live :
    ∀ handle ∈ s.handles, handle.IsLive →
      handle.sector ∈ s.disk.directory.fileSectors ∧
        handle.file.hdr = s.disk.headerAt handle.sector

theorem valid_of_formatted
    {s : Session}
    (hFormatted : s.Formatted) :
    s.Valid := by
  rcases hFormatted with ⟨hHandles, memory, disk, hRun⟩
  rcases FileSystem.format_spec memory disk with
    ⟨fs, disk', hRun', hDisk, hMounted, _⟩
  rw [hRun] at hRun'
  simp only [Option.some.injEq, Prod.mk.injEq] at hRun'
  rcases hRun' with ⟨rfl, rfl⟩
  refine ⟨hDisk, hMounted, ?_, ?_⟩
  · simp [hHandles]
  · simp [hHandles]

namespace Valid

variable {s : Session}
variable {handle : Handle}

/- The position of a handle is free to move. -/
theorem seek
    (hValid : s.Valid)
    {h : Nat}
    (hHandle : s.handles[h]? = some handle)
    (position : Int) :
    (s.setFile h handle
      (handle.file.seek position)).Valid := by
  have hMem := List.mem_of_getElem? hHandle
  refine ⟨hValid.consistent, hValid.mounted, ?_, ?_⟩
  · intro other hOther
    rcases List.mem_or_eq_of_mem_set hOther with
      hOther | rfl
    · exact hValid.handle_wellFormed other hOther
    · exact hValid.handle_wellFormed handle hMem
  · intro other hOther hLive
    rcases List.mem_or_eq_of_mem_set hOther with
      hOther | rfl
    · exact hValid.handle_live other hOther hLive
    · exact hValid.handle_live handle hMem hLive

/- Keeping the files of the directory keeps the handles. -/
theorem setDisk
    (hValid : s.Valid)
    {disk : Disk}
    (hDisk : disk.Consistent)
    (hMounted : s.fs.MountedOn disk)
    (hFiles :
      ∀ f ∈ s.disk.directory.fileSectors,
        f ∈ disk.directory.fileSectors ∧
          disk.headerAt f = s.disk.headerAt f) :
    ({ s with disk := disk } : Session).Valid := by
  refine ⟨hDisk, hMounted, hValid.handle_wellFormed, ?_⟩
  intro handle hHandle hLive
  rcases hValid.handle_live handle hHandle hLive with
    ⟨hMem, hHdr⟩
  rcases hFiles _ hMem with ⟨hMem', hHdr'⟩
  exact ⟨hMem', hHdr.trans hHdr'.symm⟩

theorem create
    (hValid : s.Valid)
    (memory : Memory)
    (name : CString)
    {initialSize : Int}
    (hMin : 0 ≤ initialSize)
    (hMax : initialSize ≤ MaxFileSize) :
    ∃ t, s.step (.create memory name initialSize) = some t ∧
      t.Valid := by
  have hDisk := hValid.consistent
  have hMounted := hValid.mounted
  rcases Int.eq_ofNat_of_zero_le hMin with ⟨size, rfl⟩
  rcases FileSystem.create_cases hDisk hMounted memory name
      size with
    ⟨_, hRun⟩ | ⟨i, rest, j, hAbsent, hFree, hEntry, hRoom⟩
  · exact ⟨s, by simp [Session.step, hRun], hValid⟩
  · rcases FileSystem.create_spec hDisk hMounted memory
        (Int.ofNat_le.mp hMax) hAbsent hFree hEntry
        hRoom with
      ⟨disk, hRun, _, hDisk', hMounted', hDirectory, _, _,
        hOld, _⟩
    refine ⟨{ s with disk := disk },
      by simp [Session.step, hRun],
      hValid.setDisk hDisk' hMounted' ?_⟩
    intro f hf
    have hFiles :=
      Directory.fileSectors_set_assign hEntry name i.2
    refine ⟨?_, hOld f (Disk.mem_fileSectors_of_mem hf)⟩
    rw [hDirectory]
    exact hFiles.mem_iff.mpr (List.mem_cons_of_mem _ hf)

theorem openFile
    (hValid : s.Valid)
    (memory : Memory)
    (name : CString) :
    ∃ t, s.step (.openFile memory name) = some t ∧
      t.Valid := by
  have hDisk := hValid.consistent
  cases hFind : s.disk.directory.findIndex name with
  | none =>
      have hRun := FileSystem.openFile_of_absent hDisk
        hValid.mounted memory hFind
      exact ⟨s, by simp [Session.step, hRun], hValid⟩
  | some i =>
      have hRun := FileSystem.openFile_of_found hDisk
        hValid.mounted memory hFind
      rcases hDisk.find_eq hFind with ⟨hMem, hSector⟩
      generalize (s.disk.directory.table i).sector.toNat = f
        at hRun hMem hSector
      have hWf := hDisk.wellFormed f
        (Disk.mem_fileSectors_of_mem hMem)
      refine ⟨{ s with
          handles := s.handles ++
            [⟨⟨s.disk.headerAt f, 0⟩, f, true⟩] },
        by simp [Session.step, hRun, hSector],
        hDisk, hValid.mounted, ?_, ?_⟩
      · intro handle hHandle
        rcases List.mem_append.mp hHandle with hOld | hNew
        · exact hValid.handle_wellFormed handle hOld
        · rw [List.mem_singleton.mp hNew]
          exact hWf
      · intro handle hHandle hLive
        rcases List.mem_append.mp hHandle with hOld | hNew
        · exact hValid.handle_live handle hOld hLive
        · rw [List.mem_singleton.mp hNew]
          exact ⟨hMem, rfl⟩

theorem remove
    (hValid : s.Valid)
    (memory : Memory)
    (name : CString) :
    ∃ t, s.step (.remove memory name) = some t ∧
      t.Valid := by
  have hDisk := hValid.consistent
  cases hFind : s.disk.directory.findIndex name with
  | none =>
      have hRun := FileSystem.remove_of_absent hDisk.tables
        hValid.mounted memory hFind
      exact ⟨s, by simp [Session.step, hRun], hValid⟩
  | some i =>
      rcases FileSystem.remove_spec hDisk hValid.mounted
          memory hFind with
        ⟨disk, hRun, hDisk', hMounted', hDirectory, hOld, _⟩
      have hSector := (hDisk.find_eq hFind).2
      have hFiles := Directory.fileSectors_remove hFind
      generalize (s.disk.directory.table i).sector.toNat = f
        at hSector hFiles
      refine ⟨{ s with
          disk := disk
          handles := s.handles.map (·.expire f) },
        by simp [Session.step, hRun, hSector],
        hDisk', hMounted', ?_, ?_⟩
      · intro handle hHandle
        rcases List.mem_map.mp hHandle with
          ⟨handle, hMem, rfl⟩
        exact hValid.handle_wellFormed handle hMem
      · intro handle hHandle hLive
        rcases List.mem_map.mp hHandle with
          ⟨handle, hMem, rfl⟩
        -- the handle was live and is not of the removed file
        rw [Handle.IsLive, Handle.expire, Bool.and_eq_true,
          bne_iff_ne] at hLive
        rcases hValid.handle_live handle hMem hLive.1 with
          ⟨hIn, hHdr⟩
        have hLeft := List.mem_of_ne_of_mem hLive.2
          (hFiles.mem_iff.mp hIn)
        refine ⟨by rwa [hDirectory], ?_⟩
        exact hHdr.trans
          (hOld _ (Disk.mem_fileSectors_of_mem hIn)).symm

/- Reads never leave the disk. -/
theorem readAt
    (hValid : s.Valid)
    (hMem : handle ∈ s.handles)
    (memory : Memory)
    {numBytes position : Int}
    (hRange : InRange numBytes position) :
    ∃ result,
      handle.file.readAt memory s.disk numBytes position =
        some result := by
  rcases hRange with ⟨hMin, hEnd⟩
  rcases Int.eq_ofNat_of_zero_le hMin with ⟨p, rfl⟩
  exact ⟨_, OpenFile.readAt_eq
    (hValid.handle_wellFormed handle hMem) memory s.disk
    hEnd⟩

/- A write through a live handle stays in its file. -/
theorem writeAt
    (hValid : s.Valid)
    (hMem : handle ∈ s.handles)
    (hLive : handle.IsLive)
    (memory : Memory)
    {source : List Bytes.Byte}
    {numBytes position : Int}
    (hSource : numBytes ≤ source.length)
    (hRange : InRange numBytes position) :
    ∃ result disk,
      handle.file.writeAt memory s.disk source numBytes
        position = some (result, disk) ∧
      ({ s with disk := disk } : Session).Valid ∧
      s.disk.ChangesOnly disk handle.sector := by
  have hDisk := hValid.consistent
  rcases hRange with ⟨hMin, hEnd⟩
  rcases Int.eq_ofNat_of_zero_le hMin with ⟨p, rfl⟩
  rcases hValid.handle_live handle hMem hLive with
    ⟨hIn, hHdr⟩
  have hFile := Disk.mem_fileSectors_of_mem hIn
  have hWf := hDisk.wellFormed _ hFile
  have hNodup := hDisk.separate.nodup_sectors hFile
  rw [← hHdr] at hWf hNodup
  rcases OpenFile.writeAt_spec hWf hNodup memory s.disk
      hSource hEnd with
    ⟨disk, hRun, _, hFrame⟩
  rw [hHdr] at hFrame
  rcases hDisk.write hIn hFrame with ⟨hDisk', hChange⟩
  have hMounted := hValid.mounted.of_headers
    (hChange.header_eq _ s.disk.freeMapSector_mem)
    (hChange.header_eq _ s.disk.directorySector_mem)
  refine ⟨_, disk, hRun,
    hValid.setDisk hDisk' hMounted ?_, hChange⟩
  intro f hf
  rw [hChange.directory_eq]
  exact ⟨hf,
    hChange.header_eq f (Disk.mem_fileSectors_of_mem hf)⟩

/- Every call that is allowed succeeds. -/
theorem step
    (hValid : s.Valid)
    {call : Call}
    (hAllowed : s.Allowed Handle.IsLive call) :
    ∃ t, s.step call = some t ∧ t.Valid := by
  cases call with
  | create memory name initialSize =>
      exact hValid.create memory name hAllowed.1 hAllowed.2
  | openFile memory name => exact hValid.openFile memory name
  | remove memory name => exact hValid.remove memory name
  | readAt memory h numBytes position =>
      rcases hAllowed with ⟨handle, hHandle, hRange⟩
      rcases hValid.readAt (List.mem_of_getElem? hHandle)
          memory hRange with ⟨result, hRun⟩
      exact ⟨s, by simp [Session.step, hHandle, hRun],
        hValid⟩
  | writeAt memory h source numBytes position =>
      rcases hAllowed with
        ⟨handle, hHandle, hLive, hSource, hRange⟩
      rcases hValid.writeAt (List.mem_of_getElem? hHandle)
          hLive memory hSource hRange with
        ⟨result, disk, hRun, hValid', _⟩
      exact ⟨_, by simp [Session.step, hHandle, hRun],
        hValid'⟩
  | read memory h numBytes =>
      rcases hAllowed with ⟨handle, hHandle, hRange⟩
      rcases hValid.readAt (List.mem_of_getElem? hHandle)
          memory hRange with ⟨result, hRun⟩
      exact ⟨_, by
          simp only [Session.step, hHandle, OpenFile.read,
            hRun, Option.bind_eq_bind, Option.bind_some],
        hValid.seek hHandle
          (wrap (handle.file.seekPosition + result.1))⟩
  | write memory h source numBytes =>
      rcases hAllowed with
        ⟨handle, hHandle, hLive, hSource, hRange⟩
      rcases hValid.writeAt (List.mem_of_getElem? hHandle)
          hLive memory hSource hRange with
        ⟨result, disk, hRun, hValid', _⟩
      exact ⟨_, by
          simp only [Session.step, hHandle, OpenFile.write,
            hRun, Option.bind_eq_bind, Option.bind_some]
          rfl,
        hValid'.seek hHandle
          (wrap (handle.file.seekPosition + result))⟩
  | seek h position =>
      rcases hAllowed with ⟨handle, hHandle⟩
      exact ⟨_, by simp [Session.step, hHandle],
        hValid.seek hHandle position⟩

end Valid

end Session

end Nachos

------------------------------------
-- Runs
------------------------------------

namespace Nachos

namespace Session

variable {s : Session}

theorem valid_of_reachable
    (hReach : (system Handle.IsLive).Reachable s) :
    s.Valid := by
  refine hReach.invariant (fun _ => valid_of_formatted) ?_
  intro s call t hValid hAllowed hStep
  rcases hValid.step hAllowed with ⟨t', hStep', hValid'⟩
  have hEq : t = t' :=
    Option.some.inj (hStep.symm.trans hStep')
  rwa [hEq]

/- What the owned sectors are. -/
theorem mem_owned_iff
    (disk : Disk)
    (x : Nat) :
    x ∈ disk.owned ↔
      x ∈ disk.sectorsOf FreeMapSector ∨
      x ∈ disk.sectorsOf DirectorySector ∨
      ∃ i, (disk.directory.table i).isInUse = true ∧
        x ∈ disk.sectorsOf
          (disk.directory.table i).sector.toNat := by
  rw [Disk.owned, Disk.fileSectors, List.flatMap_cons,
    List.flatMap_cons, List.mem_append, List.mem_append,
    List.mem_flatMap]
  refine or_congr_right (or_congr_right ?_)
  simp only [Directory.mem_fileSectors_iff]
  constructor
  · rintro ⟨f, ⟨i, hUsed, rfl⟩, hx⟩
    exact ⟨i, hUsed, hx⟩
  · rintro ⟨i, hUsed, hx⟩
    exact ⟨_, ⟨i, hUsed, rfl⟩, hx⟩

/-
  In every session the free map marks just the sectors that
  are in use, none of them is used twice, and no call fails
  an assertion.
-/
theorem ownership_of_reachable
    (hReach : (system Handle.IsLive).Reachable s) :
    (∀ x : Fin NumSectors,
      s.disk.freeMap.bit x = true ↔
        (x.1 = FreeMapSector ∨
          x.1 ∈ (s.disk.headerAt FreeMapSector).sectors) ∨
        (x.1 = DirectorySector ∨
          x.1 ∈ (s.disk.headerAt DirectorySector).sectors) ∨
        ∃ i, (s.disk.directory.table i).isInUse = true ∧
          (x.1 = (s.disk.directory.table i).sector.toNat ∨
            x.1 ∈ (s.disk.headerAt
              (s.disk.directory.table i).sector.toNat
                ).sectors)) ∧
    s.disk.owned.Nodup ∧
    ∀ call, s.Allowed Handle.IsLive call →
      s.step call ≠ none := by
  have hValid := valid_of_reachable hReach
  have hTracks := hValid.consistent.tracks
  refine ⟨?_, hTracks.nodup, ?_⟩
  · intro x
    rw [← BitMap.isMarked_val, hTracks.marked_iff,
      mem_owned_iff]
    simp only [Disk.sectorsOf, List.mem_cons]
  · intro call hAllowed
    rcases hValid.step hAllowed with ⟨t, hStep, _⟩
    rw [hStep]
    exact Option.some_ne_none t

theorem ownership_after_create_a :
    ∃ s t : Session,
      s.Formatted ∧
      s.step (.create Memory.zero CString.a 1) = some t ∧
      t.disk.owned.Nodup ∧
      ∀ call, t.Allowed Handle.IsLive call →
        t.step call ≠ none := by
  rcases FileSystem.format_spec Memory.zero
      (fun _ _ => 0) with
    ⟨fs, disk, hFormat, _⟩
  have hInit : (⟨fs, disk, []⟩ : Session).Formatted :=
    ⟨rfl, _, _, hFormat⟩
  have hAllowed : Allowed Handle.IsLive ⟨fs, disk, []⟩
      (.create Memory.zero CString.a 1) :=
    ⟨by decide, by decide⟩
  rcases (valid_of_formatted hInit).step hAllowed with
    ⟨t, hStep, _⟩
  have hStart : (system Handle.IsLive).Reachable
      ⟨fs, disk, []⟩ :=
    .of_init hInit
  have hReach : (system Handle.IsLive).Reachable t :=
    hStart.of_step
      (a := .create Memory.zero CString.a 1) hAllowed hStep
  exact ⟨_, t, hInit, hStep,
    (ownership_of_reachable hReach).2⟩

end Session

end Nachos
