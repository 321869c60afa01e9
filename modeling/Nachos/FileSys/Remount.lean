import Nachos.FileSys.Garbage
import Nachos.FileSys.SingleFile

/-
  Mounting the disk again.

  A file system object that has been used for long and one
  that has just been mounted on the same disk serve every row
  of requests alike.  The two runs may find different things
  in uninitialized memory, so that the garbage which gets to
  the disk is tracked in the run of the old object.

  Main declarations:
    * `Session.perform`
    * `Tracked.Alike`
    * `Tracked.Alike.perform`
    * `Session.remount_equivalent`
-/

------------------------------------
-- Requests and Replies
------------------------------------

namespace Nachos

open Bytes

/- The same call with other contents of the memory. -/
def Call.withMemory
    (memory : Memory) :
    Call → Call
| .create _ name initialSize =>
    .create memory name initialSize
| .openFile _ name => .openFile memory name
| .remove _ name => .remove memory name
| .readAt _ h numBytes position =>
    .readAt memory h numBytes position
| .writeAt _ h source numBytes position =>
    .writeAt memory h source numBytes position
| .read _ h numBytes => .read memory h numBytes
| .write _ h source numBytes =>
    .write memory h source numBytes
| .seek h position => .seek h position

namespace Session

inductive Request where
  | call (call : Call)
  | list (memory : Memory)

/- What a program gets to see. -/
inductive Reply where
  | status (ok : Bool)
  | data (count : Int) (bytes : List Byte)
  | count (count : Int)
  | names (names : Option (List (List Byte)))
  | done

def Request.withMemory
    (memory : Memory) :
    Request → Request
| .call c => .call (c.withMemory memory)
| .list _ => .list memory

/- Are these the same requests but for the memory? -/
def Request.Same
    (request request' : Request) : Prop :=
  ∃ memory, request' = request.withMemory memory

/- What a call returns. -/
def reply
    (s : Session) :
    Call → Option Reply
| .create memory name initialSize => do
    let (ok, _) ←
      s.fs.create memory s.disk name initialSize
    some (.status ok)
| .openFile memory name => do
    let file ← s.fs.openFile memory s.disk name
    some (.status file.isSome)
| .remove memory name => do
    let (removed, _) ← s.fs.remove memory s.disk name
    some (.status removed)
| .readAt memory h numBytes position => do
    let handle ← s.handles[h]?
    let (count, bytes) ←
      handle.file.readAt memory s.disk numBytes position
    some (.data count bytes)
| .writeAt memory h source numBytes position => do
    let handle ← s.handles[h]?
    let (count, _) ←
      handle.file.writeAt memory s.disk source numBytes
        position
    some (.count count)
| .read memory h numBytes => do
    let handle ← s.handles[h]?
    let (count, bytes, _) ←
      handle.file.read memory s.disk numBytes
    some (.data count bytes)
| .write memory h source numBytes => do
    let handle ← s.handles[h]?
    let (count, _, _) ←
      handle.file.write memory s.disk source numBytes
    some (.count count)
| .seek h _ => do
    let _ ← s.handles[h]?
    some .done

def perform
    (s : Session) :
    Request → Option (Reply × Session)
| .call call => do
    let reply ← s.reply call
    let t ← s.step call
    some (reply, t)
| .list memory => do
    let names ← s.fs.list memory s.disk
    some (.names names, s)

end Session

end Nachos

------------------------------------
-- Tracking Garbage
------------------------------------

namespace Nachos

open Bytes

/- The garbage on the disk after a call with its reply. -/
def Garbage.after
    (garbage : Garbage)
    (s : Session) :
    Call → Session.Reply → Garbage
| .create _ _ initialSize, .status true =>
    garbage.afterCreate s.disk initialSize.toNat
| .remove _ _, .status true => garbage.afterTables s.disk
| .writeAt _ h _ _ position, .count count =>
    s.handles[h]?.elim garbage fun handle =>
      garbage.afterWrite handle.file.hdr position.toNat
        count.toNat
| .write _ h _ _, .count count =>
    s.handles[h]?.elim garbage fun handle =>
      garbage.afterWrite handle.file.hdr
        handle.file.seekPosition.toNat count.toNat
| _, _ => garbage

namespace Session

/- Which bytes of a reply were read from garbage. -/
def Doubtful
    (s : Session)
    (garbage : Garbage) :
    Call → Nat → Prop
| .readAt _ h _ position, j =>
    ∃ handle, s.handles[h]? = some handle ∧
      garbage
        (handle.file.hdr.sectorAt
          ((position.toNat + j) / SectorSize))
        ((position.toNat + j) % SectorSize)
| .read _ h _, j =>
    ∃ handle, s.handles[h]? = some handle ∧
      garbage
        (handle.file.hdr.sectorAt
          ((handle.file.seekPosition.toNat + j) /
            SectorSize))
        ((handle.file.seekPosition.toNat + j) % SectorSize)
| _, _ => False

/- Replies that are equal but for doubtful bytes. -/
def Reply.SameApartFrom
    (doubtful : Nat → Prop) :
    Reply → Reply → Prop
| .data n bytes, .data n' bytes' =>
    n' = n ∧
    bytes'.length = bytes.length ∧
    ∀ j, ¬ doubtful j → bytes'[j]? = bytes[j]?
| reply, reply' => reply' = reply

end Session

/- A session with the garbage on its disk. -/
structure Tracked where
  session : Session
  garbage : Garbage

/- A reply with its doubtful bytes. -/
structure Observation where
  reply : Session.Reply
  doubtful : Nat → Prop

def Observation.Agrees
    (observation : Observation)
    (reply : Session.Reply) : Prop :=
  observation.reply.SameApartFrom observation.doubtful reply

namespace Tracked

def after
    (t : Tracked)
    (session : Session)
    (reply : Session.Reply) :
    Session.Request → Tracked
| .call call =>
    ⟨session, t.garbage.after t.session call reply⟩
| .list _ => ⟨session, t.garbage⟩

def doubtful
    (t : Tracked) :
    Session.Request → Nat → Prop
| .call call => t.session.Doubtful t.garbage call
| .list _ => fun _ => False

/- Serve a request and note the garbage. -/
def observe
    (t : Tracked)
    (request : Session.Request) :
    Option (Observation × Tracked) := do
  let (reply, session) ← t.session.perform request
  some (⟨reply, t.doubtful request⟩,
    t.after session reply request)

/- The requests that a program may make. -/
def Permitted
    (t : Tracked) :
    Session.Request → Prop
| .call call => t.session.Allowed Handle.IsLive call
| .list _ => True

end Tracked

end Nachos

------------------------------------
-- Sessions That Are Alike
------------------------------------

namespace Nachos

open Bytes

/- Handles of the same file at the same position. -/
structure Handle.Same
    (handle handle' : Handle) : Prop where
  hdr_same : handle.file.hdr.Same handle'.file.hdr
  seekPosition_eq :
    handle'.file.seekPosition = handle.file.seekPosition
  sector_eq : handle'.sector = handle.sector
  live_eq : handle'.live = handle.live

theorem Handle.Same.expire
    {handle handle' : Handle}
    (hSame : handle.Same handle')
    (sector : Nat) :
    (handle.expire sector).Same (handle'.expire sector) where
  hdr_same := hSame.hdr_same
  seekPosition_eq := hSame.seekPosition_eq
  sector_eq := hSame.sector_eq
  live_eq := by
    simp only [Handle.expire, hSame.live_eq, hSame.sector_eq]

theorem Handle.Same.seek
    {handle handle' : Handle}
    (hSame : handle.Same handle')
    (position : Int) :
    Handle.Same
      { handle with file := handle.file.seek position }
      { handle' with
        file := handle'.file.seek position } where
  hdr_same := hSame.hdr_same
  seekPosition_eq := rfl
  sector_eq := hSame.sector_eq
  live_eq := hSame.live_eq

namespace Tracked

/- Sessions on disks that are alike apart from garbage. -/
structure Alike
    (t : Tracked)
    (s' : Session) : Prop where
  valid : t.session.Valid
  valid' : s'.Valid
  disk_same :
    t.session.disk.SameApartFrom s'.disk t.garbage
  handles_same :
    List.Forall₂ Handle.Same t.session.handles s'.handles

/-
  Both sessions serve the call, with replies, disks and
  handles that are alike.
-/
def Matches
    (t : Tracked)
    (s' : Session)
    (c c' : Call) : Prop :=
  ∃ reply s₁ reply' s₁',
    t.session.reply c = some reply ∧
    t.session.step c = some s₁ ∧
    s'.reply c' = some reply' ∧
    s'.step c' = some s₁' ∧
    reply.SameApartFrom (t.session.Doubtful t.garbage c)
      reply' ∧
    s₁.disk.SameApartFrom s₁'.disk
      (t.garbage.after t.session c reply) ∧
    List.Forall₂ Handle.Same s₁.handles s₁'.handles

namespace Alike

variable {t : Tracked}
variable {s' : Session}

theorem create
    (hAlike : t.Alike s')
    (memory memory' : Memory)
    (name : CString)
    {initialSize : Int}
    (hMin : 0 ≤ initialSize)
    (hMax : initialSize ≤ MaxFileSize) :
    t.Matches s' (.create memory name initialSize)
      (.create memory' name initialSize) := by
  rcases Int.eq_ofNat_of_zero_le hMin with ⟨size, rfl⟩
  rcases FileSystem.create_same hAlike.valid.consistent
      hAlike.valid.mounted hAlike.valid'.consistent
      hAlike.valid'.mounted hAlike.disk_same memory memory'
      name (Int.ofNat_le.mp hMax) with
    ⟨ok, disk₁, disk₁', hRun, hRun', hSame⟩
  refine ⟨.status ok, { t.session with disk := disk₁ },
    .status ok, { s' with disk := disk₁' },
    ?_, ?_, ?_, ?_, rfl, ?_, hAlike.handles_same⟩
  · simp [Session.reply, hRun]
  · simp [Session.step, hRun]
  · simp [Session.reply, hRun']
  · simp [Session.step, hRun']
  · cases ok with
    | false => exact hSame
    | true => exact hSame

theorem openFile
    (hAlike : t.Alike s')
    (memory memory' : Memory)
    (name : CString) :
    t.Matches s' (.openFile memory name)
      (.openFile memory' name) := by
  have hDisk := hAlike.valid.consistent
  have hSame := hAlike.disk_same
  cases hFind : t.session.disk.directory.findIndex name with
  | none =>
      have hRun := FileSystem.openFile_of_absent hDisk
        hAlike.valid.mounted memory hFind
      rw [← hSame.directory_eq] at hFind
      have hRun' := FileSystem.openFile_of_absent
        hAlike.valid'.consistent hAlike.valid'.mounted
        memory' hFind
      refine ⟨.status false, t.session, .status false, s',
        ?_, ?_, ?_, ?_, rfl, hSame, hAlike.handles_same⟩
      · simp [Session.reply, hRun]
      · simp [Session.step, hRun]
      · simp [Session.reply, hRun']
      · simp [Session.step, hRun']
  | some i =>
      have hRun := FileSystem.openFile_of_found hDisk
        hAlike.valid.mounted memory hFind
      have hMem := (hDisk.find_eq hFind).1
      rw [← hSame.directory_eq] at hFind
      have hRun' := FileSystem.openFile_of_found
        hAlike.valid'.consistent hAlike.valid'.mounted
        memory' hFind
      rw [hSame.directory_eq] at hRun'
      generalize hSector :
        (t.session.disk.directory.table i).sector.toNat = f
        at hRun hRun' hMem
      have hFound' :
          (s'.disk.directory.find name).toNat =
            (t.session.disk.directory.find name).toNat := by
        rw [hSame.directory_eq]
      refine ⟨.status true,
        { t.session with
          handles := t.session.handles ++
            [⟨⟨t.session.disk.headerAt f, 0⟩,
              (t.session.disk.directory.find name).toNat,
              true⟩] },
        .status true,
        { s' with
          handles := s'.handles ++
            [⟨⟨s'.disk.headerAt f, 0⟩,
              (s'.disk.directory.find name).toNat, true⟩] },
        ?_, ?_, ?_, ?_, rfl, ?_, ?_⟩
      · simp [Session.reply, hRun]
      · simp [Session.step, hRun]
      · simp [Session.reply, hRun']
      · simp [Session.step, hRun']
      · exact hSame
      · apply List.rel_append hAlike.handles_same
        refine .cons ⟨?_, rfl, hFound', rfl⟩ .nil
        exact hSame.header_same f
          (Disk.mem_fileSectors_of_mem hMem)

theorem remove
    (hAlike : t.Alike s')
    (memory memory' : Memory)
    (name : CString) :
    t.Matches s' (.remove memory name)
      (.remove memory' name) := by
  have hSame := hAlike.disk_same
  rcases FileSystem.remove_same hAlike.valid.consistent
      hAlike.valid.mounted hAlike.valid'.consistent
      hAlike.valid'.mounted hSame memory memory' name with
    ⟨removed, disk₁, disk₁', hRun, hRun', hSame'⟩
  have hFound' :
      (s'.disk.directory.find name).toNat =
        (t.session.disk.directory.find name).toNat := by
    rw [hSame.directory_eq]
  refine ⟨.status removed,
    { t.session with
      disk := disk₁
      handles :=
        if removed then
          t.session.handles.map (·.expire
            (t.session.disk.directory.find name).toNat)
        else
          t.session.handles },
    .status removed,
    { s' with
      disk := disk₁'
      handles :=
        if removed then
          s'.handles.map (·.expire
            (t.session.disk.directory.find name).toNat)
        else
          s'.handles },
    ?_, ?_, ?_, ?_, rfl, ?_, ?_⟩
  · simp [Session.reply, hRun]
  · simp [Session.step, hRun]
  · simp [Session.reply, hRun']
  · simp [Session.step, hRun', hFound']
  · cases removed with
    | false => exact hSame'
    | true => exact hSame'
  · cases removed with
    | false => exact hAlike.handles_same
    | true =>
        exact List.rel_map
          (fun _ _ hHandle => hHandle.expire _)
          hAlike.handles_same

end Alike

end Tracked

end Nachos

------------------------------------
-- Reads and Writes on Sessions That Are Alike
------------------------------------

namespace Nachos

open Bytes CInt

namespace Disk

/- Writes into one file keep what describes the files. -/
theorem SameApartFrom.write
    {disk disk' disk₁ disk₁' : Disk}
    {garbage garbage' : Garbage}
    (hSame : disk.SameApartFrom disk' garbage)
    {f : Nat}
    (hChange : disk.ChangesOnly disk₁ f)
    (hChange' : disk'.ChangesOnly disk₁' f)
    (hBytes :
      ∀ s offset, ¬ garbage' s offset →
        disk₁'.byteAt s offset = disk₁.byteAt s offset) :
    disk₁.SameApartFrom disk₁' garbage' where
  directory_eq := by
    rw [hChange'.directory_eq, hChange.directory_eq,
      hSame.directory_eq]
  freeMap_eq := by
    rw [hChange'.freeMap_eq, hChange.freeMap_eq,
      hSame.freeMap_eq]
  header_same := by
    intro g hg
    rw [fileSectors_eq hChange.directory_eq] at hg
    rw [hChange.header_eq g hg, hChange'.header_eq g
      (by rwa [fileSectors_eq hSame.directory_eq])]
    exact hSame.header_same g hg
  byte_eq := hBytes

end Disk

namespace Tracked

namespace Alike

variable {t : Tracked}
variable {s' : Session}
variable {numBytes position : Int}
variable {handle : Handle}
variable {h : Nat}
variable {source : List Byte}

theorem transferIn
    (hAlike : t.Alike s')
    {handle handle' : Handle}
    (hMem : handle ∈ t.session.handles)
    (hHandle : handle.Same handle')
    (memory memory' : Memory)
    (hRange : Session.InRange numBytes position) :
    ∃ count data data',
      handle.file.readAt memory t.session.disk numBytes
        position = some (count, data) ∧
      handle'.file.readAt memory' s'.disk numBytes
        position = some (count, data') ∧
      data'.length = data.length ∧
      ∀ j,
        ¬ t.garbage
          (handle.file.hdr.sectorAt
            ((position.toNat + j) / SectorSize))
          ((position.toNat + j) % SectorSize) →
        data'[j]? = data[j]? := by
  rcases hRange with ⟨hMin, hEnd⟩
  rcases Int.eq_ofNat_of_zero_le hMin with ⟨p, rfl⟩
  rcases OpenFile.readAt_same hHandle.hdr_same
      (hAlike.valid.handle_wellFormed handle hMem)
      hAlike.disk_same.byte_eq memory memory' hEnd with
    ⟨data, data', hRun, hRun', hLength, hData⟩
  exact ⟨_, data, data', hRun, hRun', hLength, hData⟩

theorem transferOut
    (hAlike : t.Alike s')
    {handle handle' : Handle}
    (hMem : handle ∈ t.session.handles)
    (hMem' : handle' ∈ s'.handles)
    (hHandle : handle.Same handle')
    (hLive : handle.IsLive)
    (memory memory' : Memory)
    (hSource : numBytes ≤ source.length)
    (hRange : Session.InRange numBytes position) :
    ∃ count disk₁ disk₁',
      handle.file.writeAt memory t.session.disk source
        numBytes position = some (count, disk₁) ∧
      handle'.file.writeAt memory' s'.disk source numBytes
        position = some (count, disk₁') ∧
      disk₁.SameApartFrom disk₁'
        (t.garbage.afterWrite handle.file.hdr position.toNat
          count.toNat) := by
  have hLive' : handle'.IsLive := hHandle.live_eq.trans hLive
  rcases hAlike.valid.writeAt hMem hLive memory hSource
      hRange with
    ⟨count, disk₁, hRun, _, hChange⟩
  rcases hAlike.valid'.writeAt hMem' hLive' memory' hSource
      hRange with
    ⟨count', disk₁', hRun', _, hChange'⟩
  rw [hHandle.sector_eq] at hChange'
  rcases hAlike.valid.handle_live handle hMem hLive with
    ⟨hIn, hHdr⟩
  have hNodup := hAlike.valid.consistent.separate.nodup_sectors
    (Disk.mem_fileSectors_of_mem hIn)
  rw [← hHdr] at hNodup
  rcases hRange with ⟨hMin, hEnd⟩
  rcases Int.eq_ofNat_of_zero_le hMin with ⟨p, rfl⟩
  rcases OpenFile.writeAt_same hHandle.hdr_same
      (hAlike.valid.handle_wellFormed handle hMem) hNodup
      hAlike.disk_same.byte_eq memory memory' hSource
      hEnd with
    ⟨disk₂, disk₂', hSpec, hSpec', hBytes⟩
  -- the specification is about the same two runs
  have hEq := Option.some.inj (hRun.symm.trans hSpec)
  have hEq' := Option.some.inj (hRun'.symm.trans hSpec')
  cases hEq
  cases hEq'
  exact ⟨_, disk₁, disk₁', hRun, hRun',
    hAlike.disk_same.write hChange hChange' hBytes⟩

theorem readAt
    (hAlike : t.Alike s')
    (memory memory' : Memory)
    (hHandle : t.session.handles[h]? = some handle)
    (hRange : Session.InRange numBytes position) :
    t.Matches s' (.readAt memory h numBytes position)
      (.readAt memory' h numBytes position) := by
  rcases FixedArray.related_getElem? hAlike.handles_same
      hHandle with
    ⟨handle', hHandle', hSame⟩
  rcases hAlike.transferIn (List.mem_of_getElem? hHandle)
      hSame memory memory' hRange with
    ⟨count, data, data', hRun, hRun', hLength, hData⟩
  refine ⟨.data count data, t.session, .data count data', s',
    ?_, ?_, ?_, ?_, ⟨rfl, hLength, ?_⟩, hAlike.disk_same,
    hAlike.handles_same⟩
  · simp [Session.reply, hHandle, hRun]
  · simp [Session.step, hHandle, hRun]
  · simp [Session.reply, hHandle', hRun']
  · simp [Session.step, hHandle', hRun']
  · intro j hClean
    apply hData
    exact fun hDirty => hClean ⟨handle, hHandle, hDirty⟩

theorem writeAt
    (hAlike : t.Alike s')
    (memory memory' : Memory)
    (hHandle : t.session.handles[h]? = some handle)
    (hLive : handle.IsLive)
    (hSource : numBytes ≤ source.length)
    (hRange : Session.InRange numBytes position) :
    t.Matches s' (.writeAt memory h source numBytes position)
      (.writeAt memory' h source numBytes position) := by
  rcases FixedArray.related_getElem? hAlike.handles_same
      hHandle with
    ⟨handle', hHandle', hSame⟩
  rcases hAlike.transferOut (List.mem_of_getElem? hHandle)
      (List.mem_of_getElem? hHandle') hSame hLive memory
      memory' hSource hRange with
    ⟨count, disk₁, disk₁', hRun, hRun', hDisks⟩
  refine ⟨.count count, { t.session with disk := disk₁ },
    .count count, { s' with disk := disk₁' },
    ?_, ?_, ?_, ?_, rfl, ?_, hAlike.handles_same⟩
  · simp [Session.reply, hHandle, hRun]
  · simp [Session.step, hHandle, hRun]
  · simp [Session.reply, hHandle', hRun']
  · simp [Session.step, hHandle', hRun']
  · rw [Garbage.after, hHandle]
    exact hDisks

theorem read
    (hAlike : t.Alike s')
    (memory memory' : Memory)
    (hHandle : t.session.handles[h]? = some handle)
    {numBytes : Int}
    (hRange :
      Session.InRange numBytes handle.file.seekPosition) :
    t.Matches s' (.read memory h numBytes)
      (.read memory' h numBytes) := by
  rcases FixedArray.related_getElem? hAlike.handles_same
      hHandle with
    ⟨handle', hHandle', hSame⟩
  rcases hAlike.transferIn (List.mem_of_getElem? hHandle)
      hSame memory memory' hRange with
    ⟨count, data, data', hRun, hRun', hLength, hData⟩
  refine ⟨.data count data,
    t.session.setFile h handle (handle.file.seek
      (wrap (handle.file.seekPosition + count))),
    .data count data',
    s'.setFile h handle' (handle'.file.seek
      (wrap (handle.file.seekPosition + count))),
    ?_, ?_, ?_, ?_, ⟨rfl, hLength, ?_⟩, hAlike.disk_same,
    ?_⟩
  · simp [Session.reply, OpenFile.read, hHandle, hRun]
  · simp [Session.step, OpenFile.read, hHandle, hRun]
  · simp [Session.reply, OpenFile.read, hHandle', hRun',
      hSame.seekPosition_eq]
  · simp [Session.step, OpenFile.read, hHandle', hRun',
      hSame.seekPosition_eq]
  · intro j hClean
    apply hData
    exact fun hDirty => hClean ⟨handle, hHandle, hDirty⟩
  · exact FixedArray.related_set hAlike.handles_same h
      (hSame.seek _)

theorem write
    (hAlike : t.Alike s')
    (memory memory' : Memory)
    (hHandle : t.session.handles[h]? = some handle)
    (hLive : handle.IsLive)
    {numBytes : Int}
    (hSource : numBytes ≤ source.length)
    (hRange :
      Session.InRange numBytes handle.file.seekPosition) :
    t.Matches s' (.write memory h source numBytes)
      (.write memory' h source numBytes) := by
  rcases FixedArray.related_getElem? hAlike.handles_same
      hHandle with
    ⟨handle', hHandle', hSame⟩
  rcases hAlike.transferOut (List.mem_of_getElem? hHandle)
      (List.mem_of_getElem? hHandle') hSame hLive memory
      memory' hSource hRange with
    ⟨count, disk₁, disk₁', hRun, hRun', hDisks⟩
  refine ⟨.count count,
    { t.session.setFile h handle (handle.file.seek
        (wrap (handle.file.seekPosition + count))) with
      disk := disk₁ },
    .count count,
    { s'.setFile h handle' (handle'.file.seek
        (wrap (handle.file.seekPosition + count))) with
      disk := disk₁' },
    ?_, ?_, ?_, ?_, rfl, ?_, ?_⟩
  · simp [Session.reply, OpenFile.write, hHandle, hRun]
  · simp [Session.step, OpenFile.write, hHandle, hRun]
  · simp [Session.reply, OpenFile.write, hHandle', hRun',
      hSame.seekPosition_eq]
  · simp [Session.step, OpenFile.write, hHandle', hRun',
      hSame.seekPosition_eq]
  · rw [Garbage.after, hHandle]
    exact hDisks
  · exact FixedArray.related_set hAlike.handles_same h
      (hSame.seek _)

theorem seek
    (hAlike : t.Alike s')
    (hHandle : t.session.handles[h]? = some handle)
    (position : Int) :
    t.Matches s' (.seek h position) (.seek h position) := by
  rcases FixedArray.related_getElem? hAlike.handles_same
      hHandle with
    ⟨handle', hHandle', hSame⟩
  refine ⟨.done,
    t.session.setFile h handle (handle.file.seek position),
    .done, s'.setFile h handle' (handle'.file.seek position),
    ?_, ?_, ?_, ?_, rfl, hAlike.disk_same, ?_⟩
  · simp [Session.reply, hHandle]
  · simp [Session.step, hHandle]
  · simp [Session.reply, hHandle']
  · simp [Session.step, hHandle']
  · exact FixedArray.related_set hAlike.handles_same h
      (hSame.seek position)

end Alike

end Tracked

end Nachos

------------------------------------
-- Serving Requests
------------------------------------

namespace Nachos

open Bytes

namespace Tracked

namespace Alike

variable {t : Tracked}
variable {s' : Session}

/- What one program may do the other one may do. -/
theorem allowed
    (hAlike : t.Alike s')
    (memory : Memory)
    {c : Call}
    (hAllowed : t.session.Allowed Handle.IsLive c) :
    s'.Allowed Handle.IsLive (c.withMemory memory) := by
  have hHandles := hAlike.handles_same
  cases c with
  | create _ name initialSize => exact hAllowed
  | openFile _ name => trivial
  | remove _ name => trivial
  | readAt _ h numBytes position =>
      rcases hAllowed with ⟨handle, hHandle, hRange⟩
      rcases FixedArray.related_getElem? hHandles
          hHandle with
        ⟨handle', hHandle', _⟩
      exact ⟨handle', hHandle', hRange⟩
  | writeAt _ h source numBytes position =>
      rcases hAllowed with
        ⟨handle, hHandle, hLive, hSource, hRange⟩
      rcases FixedArray.related_getElem? hHandles
          hHandle with
        ⟨handle', hHandle', hSame⟩
      exact ⟨handle', hHandle', hSame.live_eq.trans hLive,
        hSource, hRange⟩
  | read _ h numBytes =>
      rcases hAllowed with ⟨handle, hHandle, hRange⟩
      rcases FixedArray.related_getElem? hHandles
          hHandle with
        ⟨handle', hHandle', hSame⟩
      rw [← hSame.seekPosition_eq] at hRange
      exact ⟨handle', hHandle', hRange⟩
  | write _ h source numBytes =>
      rcases hAllowed with
        ⟨handle, hHandle, hLive, hSource, hRange⟩
      rcases FixedArray.related_getElem? hHandles
          hHandle with
        ⟨handle', hHandle', hSame⟩
      rw [← hSame.seekPosition_eq] at hRange
      exact ⟨handle', hHandle', hSame.live_eq.trans hLive,
        hSource, hRange⟩
  | seek h position =>
      rcases hAllowed with ⟨handle, hHandle⟩
      rcases FixedArray.related_getElem? hHandles
          hHandle with
        ⟨handle', hHandle', _⟩
      exact ⟨handle', hHandle'⟩

theorem matches_of_allowed
    (hAlike : t.Alike s')
    (memory : Memory)
    {c : Call}
    (hAllowed : t.session.Allowed Handle.IsLive c) :
    t.Matches s' c (c.withMemory memory) := by
  cases c with
  | create memory₀ name initialSize =>
      exact hAlike.create memory₀ memory name hAllowed.1
        hAllowed.2
  | openFile memory₀ name =>
      exact hAlike.openFile memory₀ memory name
  | remove memory₀ name =>
      exact hAlike.remove memory₀ memory name
  | readAt memory₀ h numBytes position =>
      rcases hAllowed with ⟨handle, hHandle, hRange⟩
      exact hAlike.readAt memory₀ memory hHandle hRange
  | writeAt memory₀ h source numBytes position =>
      rcases hAllowed with
        ⟨handle, hHandle, hLive, hSource, hRange⟩
      exact hAlike.writeAt memory₀ memory hHandle hLive
        hSource hRange
  | read memory₀ h numBytes =>
      rcases hAllowed with ⟨handle, hHandle, hRange⟩
      exact hAlike.read memory₀ memory hHandle hRange
  | write memory₀ h source numBytes =>
      rcases hAllowed with
        ⟨handle, hHandle, hLive, hSource, hRange⟩
      exact hAlike.write memory₀ memory hHandle hLive
        hSource hRange
  | seek h position =>
      rcases hAllowed with ⟨handle, hHandle⟩
      exact hAlike.seek hHandle position

/- A request is served alike and keeps the sessions alike. -/
theorem perform
    (hAlike : t.Alike s')
    {request request' : Session.Request}
    (hPermitted : t.Permitted request)
    (hRequest : request.Same request') :
    ∃ observation t₁ reply' s₁',
      t.observe request = some (observation, t₁) ∧
      s'.perform request' = some (reply', s₁') ∧
      observation.Agrees reply' ∧
      t₁.Alike s₁' := by
  rcases hRequest with ⟨memory, rfl⟩
  cases request with
  | call c =>
      rcases hAlike.matches_of_allowed memory hPermitted with
        ⟨reply, s₁, reply', s₁', hReply, hStep, hReply',
          hStep', hAgrees, hDisks, hHandles⟩
      rcases hAlike.valid.step hPermitted with
        ⟨s₂, hStep₂, hValid⟩
      rcases hAlike.valid'.step
          (hAlike.allowed memory hPermitted) with
        ⟨s₂', hStep₂', hValid'⟩
      cases Option.some.inj (hStep.symm.trans hStep₂)
      cases Option.some.inj (hStep'.symm.trans hStep₂')
      refine ⟨⟨reply, t.session.Doubtful t.garbage c⟩,
        ⟨s₁, t.garbage.after t.session c reply⟩, reply', s₁',
        ?_, ?_, hAgrees,
        ⟨hValid, hValid', hDisks, hHandles⟩⟩
      · simp only [observe, Session.perform, hReply, hStep,
          Option.bind_eq_bind, Option.bind_some]
        rfl
      · simp only [Session.perform,
          Session.Request.withMemory, hReply', hStep',
          Option.bind_eq_bind, Option.bind_some]
  | list memory₀ =>
      have hNames := FileSystem.fetch_directory
        hAlike.valid.consistent.tables hAlike.valid.mounted
      have hNames' := FileSystem.fetch_directory
        hAlike.valid'.consistent.tables
        hAlike.valid'.mounted
      refine ⟨⟨.names t.session.disk.directory.list,
          fun _ => False⟩,
        t, .names t.session.disk.directory.list, s', ?_, ?_,
        rfl, hAlike⟩
      · simp only [observe, Session.perform,
          FileSystem.list, hNames, Option.bind_eq_bind,
          Option.bind_some]
        rfl
      · simp only [Session.perform,
          Session.Request.withMemory, FileSystem.list,
          hNames', hAlike.disk_same.directory_eq,
          Option.bind_eq_bind, Option.bind_some]

end Alike

end Tracked

end Nachos

------------------------------------
-- A Fresh Object
------------------------------------

namespace Nachos

open Bytes Transition

/- Formatting ends with the object that was mounted. -/
theorem FileSystem.mount_of_format
    {memory : Memory}
    {disk disk' : Disk}
    {fs : FileSystem}
    (hFormat : format memory disk = some (fs, disk')) :
    ∃ disk₀, mount disk₀ = some fs := by
  unfold format at hFormat
  simp only [Option.bind_eq_bind, Option.bind_eq_some_iff]
    at hFormat
  rcases hFormat with
    ⟨_, _, _, _, _, _, _, _, _, _, _, _, _, _, disk₀, _, fs₀,
      hMount, _, _, _, _, hEnd⟩
  cases hEnd
  exact ⟨disk₀, hMount⟩

namespace Session

variable {s : Session}

/- No call changes the object. -/
theorem fs_of_step
    {t : Session}
    {c : Call}
    (hStep : s.step c = some t) :
    t.fs = s.fs := by
  cases c with
  | openFile memory name =>
      simp only [step, Option.bind_eq_bind,
        Option.bind_eq_some_iff] at hStep
      rcases hStep with ⟨file, _, hEnd⟩
      cases file with
      | none =>
          cases hEnd
          rfl
      | some file =>
          cases hEnd
          rfl
  | create memory name initialSize =>
      simp only [step, Option.bind_eq_bind,
        Option.bind_eq_some_iff] at hStep
      rcases hStep with ⟨_, _, hEnd⟩
      cases hEnd
      rfl
  | remove memory name =>
      simp only [step, Option.bind_eq_bind,
        Option.bind_eq_some_iff] at hStep
      rcases hStep with ⟨_, _, hEnd⟩
      cases hEnd
      rfl
  | readAt memory h numBytes position =>
      simp only [step, Option.bind_eq_bind,
        Option.bind_eq_some_iff] at hStep
      rcases hStep with ⟨_, _, _, _, hEnd⟩
      cases hEnd
      rfl
  | writeAt memory h source numBytes position =>
      simp only [step, Option.bind_eq_bind,
        Option.bind_eq_some_iff] at hStep
      rcases hStep with ⟨_, _, _, _, hEnd⟩
      cases hEnd
      rfl
  | read memory h numBytes =>
      simp only [step, Option.bind_eq_bind,
        Option.bind_eq_some_iff] at hStep
      rcases hStep with ⟨_, _, _, _, hEnd⟩
      cases hEnd
      rfl
  | write memory h source numBytes =>
      simp only [step, Option.bind_eq_bind,
        Option.bind_eq_some_iff] at hStep
      rcases hStep with ⟨_, _, _, _, hEnd⟩
      cases hEnd
      rfl
  | seek h position =>
      simp only [step, Option.bind_eq_bind,
        Option.bind_eq_some_iff] at hStep
      rcases hStep with ⟨_, _, hEnd⟩
      cases hEnd
      rfl

/-
  The object in use is the one that mounting gives at any
  time: its headers are never rewritten, and it never uses a
  file position.
-/
theorem mount_of_reachable
    (hReach : (system Handle.IsLive).Reachable s) :
    FileSystem.mount s.disk = some s.fs := by
  have hMounted := (valid_of_reachable hReach).mounted
  obtain ⟨disk₀, hMount⟩ :
      ∃ disk₀, FileSystem.mount disk₀ = some s.fs := by
    refine hReach.invariant
      (P := fun s => ∃ disk₀,
        FileSystem.mount disk₀ = some s.fs) ?_ ?_
    · rintro s ⟨_, memory, disk, hFormat⟩
      exact FileSystem.mount_of_format hFormat
    · intro s c t hOld _ hStep
      rwa [fs_of_step hStep]
  rw [FileSystem.mount_eq, ← hMounted.freeMap_hdr,
    ← hMounted.directory_hdr]
  rw [FileSystem.mount_eq] at hMount
  rw [← Option.some.inj hMount]

/- Tracking garbage changes no reply. -/
theorem execute_of_observe
    {t t₁ : Tracked}
    {requests : List Request}
    {observations : List Observation}
    (hRun :
      execute Tracked.observe t requests =
        some (observations, t₁)) :
    execute perform t.session requests =
      some (observations.map Observation.reply,
        t₁.session) := by
  induction requests generalizing t observations with
  | nil =>
      cases hRun
      rfl
  | cons request requests ih =>
      simp only [execute, Option.bind_eq_bind,
        Option.bind_eq_some_iff] at hRun
      rcases hRun with
        ⟨⟨observation, t₂⟩, hFirst, ⟨rest, t₃⟩, hRest, hEnd⟩
      cases hEnd
      simp only [Tracked.observe, Option.bind_eq_bind,
        Option.bind_eq_some_iff] at hFirst
      rcases hFirst with ⟨⟨reply, s₂⟩, hReply, hNext⟩
      cases hNext
      have hSession :
          (t.after s₂ reply request).session = s₂ := by
        cases request with
        | call c => rfl
        | list memory => rfl
      have hRest := ih hRest
      rw [hSession] at hRest
      simp only [execute, hReply, hRest, Option.bind_eq_bind,
        Option.bind_some, List.map_cons]

/-
  A fresh object on the disk of any session is equal to the
  object in use.  Whatever a run on either of them finds in
  memory, all replies agree but for bytes that were read from
  garbage, and so do the disks in the end; if they find the
  same, nothing differs at all.
-/
theorem remount_equivalent
    (hReach : (system Handle.IsLive).Reachable s) :
    FileSystem.mount s.disk = some s.fs ∧
      ∀ requests requests',
        List.Forall₂ Request.Same requests requests' →
        Guarded Tracked.observe Tracked.Permitted
          ⟨⟨s.fs, s.disk, []⟩, fun _ _ => False⟩ requests →
        ∃ observations t replies t',
          execute Tracked.observe
            ⟨⟨s.fs, s.disk, []⟩, fun _ _ => False⟩
            requests = some (observations, t) ∧
          execute perform ⟨s.fs, s.disk, []⟩ requests' =
            some (replies, t') ∧
          List.Forall₂ Observation.Agrees observations
            replies ∧
          t.session.disk.SameApartFrom t'.disk t.garbage ∧
          (requests' = requests →
            replies = observations.map Observation.reply ∧
              t'.disk = t.session.disk) := by
  have hValid := valid_of_reachable hReach
  have hMount := mount_of_reachable hReach
  have hStart : (⟨s.fs, s.disk, []⟩ : Session).Valid :=
    ⟨hValid.consistent, hValid.mounted, by simp, by simp⟩
  have hAlike : Tracked.Alike
      ⟨⟨s.fs, s.disk, []⟩, fun _ _ => False⟩
      ⟨s.fs, s.disk, []⟩ :=
    ⟨hStart, hStart,
      ⟨rfl, rfl, fun f _ => .refl (s.disk.headerAt f),
        fun _ _ _ => rfl⟩, .nil⟩
  have hStep :
      ∀ (t : Tracked) (s' : Session)
        (request request' : Request),
        t.Alike s' → t.Permitted request →
        request.Same request' →
        ∃ observation t₁ reply' s₁',
          t.observe request = some (observation, t₁) ∧
          s'.perform request' = some (reply', s₁') ∧
          observation.Agrees reply' ∧ t₁.Alike s₁' :=
    fun _ _ _ _ hRelated hPermitted hRequest =>
      hRelated.perform hPermitted hRequest
  refine ⟨hMount, ?_⟩
  intro requests requests' hSame hGuarded
  rcases execute_related hStep hSame hGuarded hAlike with
    ⟨observations, t, replies, t', hRun, hRun', hReplies,
      hEnd⟩
  refine ⟨observations, t, replies, t', hRun, hRun', hReplies,
    hEnd.disk_same, ?_⟩
  rintro rfl
  have hPlain := execute_of_observe hRun
  cases hRun'.symm.trans hPlain
  exact ⟨rfl, rfl⟩

/- Memory that holds ones everywhere. -/
def ones : Memory :=
  fun _ _ => 1

theorem remount_equivalent_create_a :
    ∃ s : Session,
      s.Formatted ∧
      FileSystem.mount s.disk = some s.fs ∧
      ∃ observations t replies t',
        execute Tracked.observe
          ⟨⟨s.fs, s.disk, []⟩, fun _ _ => False⟩
          [.call (.create Memory.zero CString.a 1),
            .list Memory.zero] =
          some (observations, t) ∧
        execute perform ⟨s.fs, s.disk, []⟩
          [.call (.create ones CString.a 1), .list ones] =
          some (replies, t') ∧
        List.Forall₂ Observation.Agrees observations
          replies := by
  rcases FileSystem.format_spec Memory.zero
      (fun _ _ => 0) with
    ⟨fs, disk, hFormat, _⟩
  have hInit : (⟨fs, disk, []⟩ : Session).Formatted :=
    ⟨rfl, _, _, hFormat⟩
  rcases remount_equivalent (.of_init hInit) with
    ⟨hMount, hServe⟩
  rcases hServe
      [.call (.create Memory.zero CString.a 1),
        .list Memory.zero]
      [.call (.create ones CString.a 1), .list ones]
      (.cons ⟨ones, rfl⟩ (.cons ⟨ones, rfl⟩ .nil))
      ⟨⟨by decide, by decide⟩, fun _ _ _ =>
        ⟨trivial, fun _ _ _ => trivial⟩⟩ with
    ⟨observations, t, replies, t', hRun, hRun', hAgrees, _⟩
  exact ⟨_, hInit, hMount, observations, t, replies, t',
    hRun, hRun', hAgrees⟩

/-
  The unused entries of a new header are written as they were
  found in memory, so that the sector of the header, which is
  no data sector of any file, need not be equal.
-/
theorem remount_differs_in_header :
    ∃ (s t t' : Session) (fs : FileSystem) (f offset : Nat),
      (system Handle.IsLive).Reachable s ∧
      FileSystem.mount s.disk = some fs ∧
      step ⟨s.fs, s.disk, []⟩
        (.create Memory.zero CString.a 1) = some t ∧
      step ⟨fs, s.disk, []⟩ (.create ones CString.a 1) =
        some t' ∧
      (∀ g ∈ t.disk.fileSectors,
        f ∉ (t.disk.headerAt g).sectors) ∧
      t'.disk.byteAt f offset ≠ t.disk.byteAt f offset := by
  rcases FileSystem.format_spec Memory.zero
      (fun _ _ => 0) with
    ⟨fs, disk, hFormat, hDisk, hMounted, hEmpty⟩
  have hInit : (⟨fs, disk, []⟩ : Session).Formatted :=
    ⟨rfl, _, _, hFormat⟩
  have hReach : (system Handle.IsLive).Reachable
      ⟨fs, disk, []⟩ :=
    .of_init hInit
  have hAbsent := Disk.findIndex_of_empty hEmpty CString.a
  rcases hDisk.room_of_empty hEmpty with
    ⟨i, i', rest, j, hFree, hEntry⟩
  have hRoom : FileHeader.sectorsFor 1 ≤
      (i' :: rest).length := by
    rw [show FileHeader.sectorsFor 1 = 1 from rfl,
      List.length_cons]
    omega
  have hSize : 1 ≤ MaxFileSize := by
    decide
  rcases FileSystem.create_spec hDisk hMounted Memory.zero
      hSize hAbsent hFree hEntry hRoom with
    ⟨disk₁, hRun, ⟨_, hHdr⟩, hDisk₁, _, hDirectory, _⟩
  rcases FileSystem.create_spec hDisk hMounted ones
      hSize hAbsent hFree hEntry hRoom with
    ⟨disk₁', hRun', ⟨_, hHdr'⟩, _⟩
  have hIn : i.1 ∈ disk₁.fileSectors := by
    apply Disk.mem_fileSectors_of_mem
    rw [hDirectory, (Directory.fileSectors_set_assign hEntry
      CString.a i.2).mem_iff]
    exact List.mem_cons_self
  -- the second entry of the table is not in use
  have hSecond : FileHeader.sectorsFor 1 ≤
      (⟨1, by decide⟩ : Fin NumDirect).1 :=
    le_refl _
  have hOld := FileHeader.allocate_unused hHdr hSecond
  have hOld' := FileHeader.allocate_unused hHdr' hSecond
  obtain ⟨offset, hOffset⟩ :
      ∃ offset, disk₁'.byteAt i offset ≠
        disk₁.byteAt i offset := by
    by_contra hNone
    rw [not_exists_not] at hNone
    have hSame := Disk.headerAt_congr hNone
    rw [hSame, hOld] at hOld'
    exact absurd hOld' (by decide +kernel)
  refine ⟨_, ⟨fs, disk₁, []⟩, ⟨fs, disk₁', []⟩, fs, i.1,
    offset, hReach, mount_of_reachable hReach, ?_, ?_, ?_,
    hOffset⟩
  · simp [step, show fs.create Memory.zero disk CString.a 1 =
      some (true, disk₁) from hRun]
  · simp [step, show fs.create ones disk CString.a 1 =
      some (true, disk₁') from hRun']
  · intro g hg
    exact hDisk₁.separate.header_not_mem hIn hg

end Session

end Nachos
