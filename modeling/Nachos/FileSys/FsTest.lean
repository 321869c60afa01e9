import Nachos.FileSys.SingleFile

/-
  Copying files from UNIX and printing them.

  A file that was copied in small chunks is printed as it
  was, whatever the sizes of the chunks are: the transfers at
  the current position drift across the sectors, and the last
  ones are cut off at the end of the file.

  Main declarations:
    * `FsTest.copy`
    * `FsTest.Holds`
    * `OpenFile.writeAll_spec`
    * `OpenFile.readAll_spec`
    * `FsTest.copy_then_print`
-/

------------------------------------
-- The Programs
------------------------------------

namespace Nachos

open Bytes CInt

abbrev TransferSize : Nat := 10

/- How a copy ends. -/
inductive CopyResult where
  | noInput
  | notCreated
  | copied
  deriving DecidableEq

namespace FsTest

/-
  Copy the data in chunks until the UNIX file is exhausted.
  The memory of each call is given by its number.
-/
def copyLoop
    (memory : Nat → Memory)
    (file : OpenFile)
    (disk : Disk)
    (source : List Byte) :
    Option (Disk × OpenFile) :=
  let buffer := source.take TransferSize
  let amountRead := buffer.length
  if amountRead > 0 then do
    let (_, disk, file) ←
      file.write (memory 0) disk buffer amountRead
    copyLoop (fun k => memory (k + 1)) file disk
      (source.drop TransferSize)
  else
    some (disk, file)
termination_by source.length
decreasing_by
  rename_i hRead
  simp only [amountRead, buffer, List.length_take] at hRead
  rw [List.length_drop]
  simp only [TransferSize] at hRead ⊢
  omega

/- Create a file, open it and write it. -/
def store
    (fs : FileSystem)
    (memory : Nat → Memory)
    (disk : Disk)
    (name : CString)
    (fileLength : Int)
    (write : OpenFile → Disk → Option (Disk × OpenFile)) :
    Option (CopyResult × Disk) := do
  let (created, disk) ←
    fs.create (memory 0) disk name fileLength
  if !created then
    some (.notCreated, disk)
  else
    -- ASSERT: the new file can be opened
    match ← fs.openFile (memory 1) disk name with
    | none => none
    | some file => do
        let (disk, _) ← write file disk
        some (.copied, disk)

/- The UNIX file is `none` when it cannot be opened. -/
def copy
    (fs : FileSystem)
    (memory : Nat → Memory)
    (disk : Disk)
    (unixFile : Option (List Byte))
    (name : CString) :
    Option (CopyResult × Disk) :=
  match unixFile with
  | none => some (.noInput, disk)
  | some source =>
      store fs memory disk name (wrap source.length)
        fun file disk =>
          copyLoop (fun k => memory (k + 2)) file disk source

/-
  Print until a read returns nothing.  The result is `none`
  when more reads would be necessary than the given number.
-/
def printLoop
    (memory : Nat → Memory)
    (file : OpenFile)
    (disk : Disk) :
    Nat → Option (List Byte)
| 0 => none
| fuel + 1 => do
    let (amountRead, buffer, file) ←
      file.read (memory 0) disk TransferSize
    if amountRead > 0 then do
      let rest ←
        printLoop (fun k => memory (k + 1)) file disk fuel
      some (buffer.take amountRead.toNat ++ rest)
    else
      some []

/- The inner `none` is a file that cannot be opened. -/
def print
    (fs : FileSystem)
    (memory : Nat → Memory)
    (disk : Disk)
    (name : CString)
    (fuel : Nat) :
    Option (Option (List Byte)) := do
  match ← fs.openFile (memory 0) disk name with
  | none => some none
  | some file => do
      let output ←
        printLoop (fun k => memory (k + 1)) file disk fuel
      some (some output)

end FsTest

end Nachos

------------------------------------
-- Rows of Transfers
------------------------------------

namespace Nachos

open Bytes CInt

namespace OpenFile

/- Write chunks one after the other. -/
def writeAll
    (memory : Nat → Memory)
    (file : OpenFile)
    (disk : Disk) :
    List (List Byte) → Option (Disk × OpenFile)
| [] => some (disk, file)
| chunk :: chunks => do
    let (_, disk, file) ←
      file.write (memory 0) disk chunk chunk.length
    writeAll (fun k => memory (k + 1)) file disk chunks

/- Read chunks of the given sizes one after the other. -/
def readAll
    (memory : Nat → Memory)
    (file : OpenFile)
    (disk : Disk) :
    List Nat → Option (List (List Byte))
| [] => some []
| size :: sizes => do
    let (_, bytes, file) ← file.read (memory 0) disk size
    let rest ←
      readAll (fun k => memory (k + 1)) file disk sizes
    some (bytes :: rest)

variable {hdr : FileHeader}

/- A write inside of the file advances by its length. -/
theorem write_spec
    (hWf : hdr.WellFormed)
    (hNodup : hdr.sectors.Nodup)
    (memory : Memory)
    (disk : Disk)
    {p : Nat}
    {chunk : List Byte}
    (hInside : p + chunk.length ≤ hdr.length) :
    ∃ disk',
      (OpenFile.mk hdr p).write memory disk chunk
          chunk.length =
        some ((chunk.length : Int), disk',
          ⟨hdr, (p + chunk.length : Nat)⟩) ∧
      disk'.contents hdr =
        FixedArray.write (disk.contents hdr) chunk
          chunk.length p ∧
      ∀ s ∉ hdr.sectors, disk.Agree disk' s := by
  have hMax := hWf.length_le
  simp only [MaxFileSize, NumDirect, SectorSize] at hMax
  have hCount : FixedArray.count hdr.length chunk.length p =
      chunk.length := by
    unfold FixedArray.count
    split <;> omega
  rcases writeAt_spec
      (show (OpenFile.mk hdr p).hdr.WellFormed from hWf)
      hNodup memory disk (le_refl (chunk.length : Int))
      (show (p : Int) + chunk.length < 2 ^ 31 by omega) with
    ⟨disk', hRun, hContents, hFrame⟩
  dsimp only at hRun
  rw [hCount] at hRun
  refine ⟨disk', ?_, hContents, hFrame⟩
  simp only [write, hRun, Option.bind_eq_bind,
    Option.bind_some, seek]
  rw [wrap_of_mem (by omega) (by omega), Int.natCast_add]

/- A row of writes is one write of all their bytes. -/
theorem writeAll_spec
    (hWf : hdr.WellFormed)
    (hNodup : hdr.sectors.Nodup)
    (memory : Nat → Memory)
    (disk : Disk)
    {p : Nat}
    {chunks : List (List Byte)}
    (hInside : p + chunks.flatten.length ≤ hdr.length) :
    ∃ disk',
      (OpenFile.mk hdr p).writeAll memory disk chunks =
        some (disk',
          ⟨hdr, (p + chunks.flatten.length : Nat)⟩) ∧
      disk'.contents hdr =
        FixedArray.write (disk.contents hdr) chunks.flatten
          chunks.flatten.length p ∧
      ∀ s ∉ hdr.sectors, disk.Agree disk' s := by
  induction chunks generalizing memory disk p with
  | nil =>
      refine ⟨disk, rfl, ?_, fun _ _ _ => rfl⟩
      exact (FixedArray.write_of_count_eq_zero (by
        simp [FixedArray.count])).symm
  | cons chunk chunks ih =>
      rw [List.flatten_cons] at hInside ⊢
      have hBoth := hInside
      rw [List.length_append] at hBoth
      rcases write_spec hWf hNodup (memory 0) disk
          (show p + chunk.length ≤ hdr.length by omega) with
        ⟨disk₁, hRun₁, hContents₁, hFrame₁⟩
      rcases ih (fun k => memory (k + 1)) disk₁
          (show p + chunk.length + chunks.flatten.length ≤
            hdr.length by omega) with
        ⟨disk₂, hRun₂, hContents₂, hFrame₂⟩
      refine ⟨disk₂, ?_, ?_, ?_⟩
      · simp only [writeAll, hRun₁, hRun₂,
          Option.bind_eq_bind, Option.bind_some,
          List.length_append, Nat.add_assoc]
      · rw [hContents₂, hContents₁]
        exact FixedArray.write_append
          (by rwa [Disk.length_contents])
      · intro s hs
        exact (hFrame₁ s hs).trans (hFrame₂ s hs)

/- A read advances by what it returns. -/
theorem read_spec
    (hWf : hdr.WellFormed)
    (memory : Memory)
    (disk : Disk)
    {n p : Nat}
    (hp : p ≤ hdr.length)
    (hEnd : p + n < 2 ^ 31) :
    (OpenFile.mk hdr p).read memory disk n =
      some
        (((((disk.contents hdr).drop p).take n).length : Int),
          ((disk.contents hdr).drop p).take n,
          ⟨hdr,
            (p + (((disk.contents hdr).drop p).take
              n).length : Nat)⟩) := by
  have hMax := hWf.length_le
  simp only [MaxFileSize, NumDirect, SectorSize] at hMax
  have hRun := readAt_eq
    (show (OpenFile.mk hdr p).hdr.WellFormed from hWf)
    memory disk (show (p : Int) + (n : Int) < 2 ^ 31 by
      omega)
  dsimp only at hRun
  have hCount := FixedArray.length_read (disk.contents hdr)
    n p
  rw [Disk.length_contents] at hCount
  rw [← hCount, FixedArray.read_natCast] at hRun
  have hLe : (((disk.contents hdr).drop p).take n).length ≤
      hdr.length - p := by
    rw [List.length_take, List.length_drop,
      Disk.length_contents]
    omega
  simp only [read, hRun, Option.bind_eq_bind,
    Option.bind_some, seek]
  rw [wrap_of_mem (by omega) (by omega), Int.natCast_add]

/- A row of reads is one read of all their bytes. -/
theorem readAll_spec
    (hWf : hdr.WellFormed)
    (memory : Nat → Memory)
    (disk : Disk)
    {p : Nat}
    {sizes : List Nat}
    (hp : p ≤ hdr.length)
    (hEnd : p + sizes.sum < 2 ^ 31) :
    ∃ pieces,
      (OpenFile.mk hdr p).readAll memory disk sizes =
        some pieces ∧
      pieces.flatten =
        ((disk.contents hdr).drop p).take sizes.sum := by
  induction sizes generalizing memory p with
  | nil => exact ⟨[], rfl, by simp⟩
  | cons n sizes ih =>
      rw [List.sum_cons] at hEnd ⊢
      have hRun := read_spec hWf (memory 0) disk hp
        (show p + n < 2 ^ 31 by omega)
      have hLe : (((disk.contents hdr).drop p).take
          n).length ≤ n ∧
          (((disk.contents hdr).drop p).take n).length ≤
            hdr.length - p := by
        rw [List.length_take, List.length_drop,
          Disk.length_contents]
        omega
      rcases ih (fun k => memory (k + 1))
          (show p + (((disk.contents hdr).drop p).take
            n).length ≤ hdr.length by omega)
          (by omega) with
        ⟨rest, hRest, hFlatten⟩
      refine ⟨((disk.contents hdr).drop p).take n :: rest,
        ?_, ?_⟩
      · simp only [readAll, hRun, hRest,
          Option.bind_eq_bind, Option.bind_some]
      · rw [List.flatten_cons, hFlatten, ← List.drop_drop]
        exact FixedArray.take_append_take _ n sizes.sum

end OpenFile

end Nachos

------------------------------------
-- Copying and Printing
------------------------------------

namespace Nachos

open Bytes CInt

namespace FsTest

/- The same copy with chunks of other sizes. -/
def copyChunks
    (fs : FileSystem)
    (memory : Nat → Memory)
    (disk : Disk)
    (chunks : List (List Byte))
    (name : CString) :
    Option (CopyResult × Disk) :=
  store fs memory disk name (wrap chunks.flatten.length)
    fun file disk =>
      file.writeAll (fun k => memory (k + 2)) disk chunks

/-
  The file with this name has these contents: they are in its
  sectors, they are printed, and they are returned by every
  row of reads, as far as it goes.
-/
structure Holds
    (fs : FileSystem)
    (disk : Disk)
    (name : CString)
    (source : List Byte) : Prop where
  stored :
    ∃ i,
      disk.directory.findIndex name = some i ∧
      disk.contents
        (disk.headerAt
          (disk.directory.table i).sector.toNat) = source
  printed :
    ∀ memory fuel,
      source.length < fuel →
        print fs memory disk name fuel = some (some source)
  returned :
    ∀ (memory : Nat → Memory) (sizes : List Nat),
      sizes.sum < 2 ^ 31 →
        ∃ file pieces,
          fs.openFile (memory 0) disk name =
            some (some file) ∧
          file.readAll (fun k => memory (k + 1)) disk sizes =
            some pieces ∧
          pieces.flatten = source.take sizes.sum

/- The loop is a row of writes of non-empty chunks. -/
theorem copyLoop_eq_writeAll
    (source : List Byte) :
    ∃ chunks : List (List Byte),
      chunks.flatten = source ∧
      (∀ chunk ∈ chunks, chunk ≠ []) ∧
      ∀ memory file disk,
        copyLoop memory file disk source =
          file.writeAll memory disk chunks := by
  induction hn : source.length using Nat.strongRecOn
    generalizing source with
  | ind n ih =>
      by_cases hEmpty : source = []
      · refine ⟨[], hEmpty.symm, by simp, ?_⟩
        intro memory file disk
        rw [copyLoop, hEmpty]
        rfl
      · have hPos := List.length_pos_iff.mpr hEmpty
        have hBuffer :
            (source.take TransferSize).length > 0 := by
          rw [List.length_take]
          simp only [TransferSize]
          omega
        have hLess :
            (source.drop TransferSize).length < n := by
          rw [List.length_drop]
          simp only [TransferSize]
          omega
        rcases ih _ hLess (source.drop TransferSize) rfl with
          ⟨chunks, hFlatten, hChunks, hLoop⟩
        refine ⟨source.take TransferSize :: chunks, ?_, ?_,
          ?_⟩
        · rw [List.flatten_cons, hFlatten,
            List.take_append_drop]
        · intro chunk hMem
          rcases List.mem_cons.mp hMem with rfl | hMem
          · exact List.length_pos_iff.mp hBuffer
          · exact hChunks chunk hMem
        · intro memory file disk
          rw [copyLoop, if_pos hBuffer, OpenFile.writeAll]
          simp only [hLoop]

/- Printing goes on to the end of the file. -/
theorem printLoop_spec
    {hdr : FileHeader}
    (hWf : hdr.WellFormed)
    (memory : Nat → Memory)
    (disk : Disk)
    {p fuel : Nat}
    (hp : p ≤ hdr.length)
    (hFuel : hdr.length - p < fuel) :
    printLoop memory ⟨hdr, p⟩ disk fuel =
      some ((disk.contents hdr).drop p) := by
  induction fuel generalizing memory p with
  | zero => omega
  | succ fuel ih =>
      have hMax := hWf.length_le
      simp only [MaxFileSize, NumDirect, SectorSize] at hMax
      have hRun := OpenFile.read_spec hWf (memory 0) disk hp
        (show p + TransferSize < 2 ^ 31 by
          simp only [TransferSize]
          omega)
      have hJoin := List.prefix_iff_eq_append.mp
        (List.take_prefix TransferSize
          ((disk.contents hdr).drop p))
      have hLength := List.length_take
        (i := TransferSize) (l := (disk.contents hdr).drop p)
      rw [List.length_drop, Disk.length_contents] at hLength
      generalize ((disk.contents hdr).drop p).take
        TransferSize = buffer at hRun hJoin hLength
      simp only [TransferSize] at hLength
      simp only [printLoop, hRun, Option.bind_eq_bind,
        Option.bind_some, Int.toNat_natCast,
        List.take_length]
      by_cases hEnd : p = hdr.length
      · rw [if_neg (by omega), List.drop_of_length_le (by
          rw [Disk.length_contents]
          omega)]
      · rw [if_pos (by omega),
          ih (fun k => memory (k + 1)) (by omega) (by omega),
          Option.bind_some, ← List.drop_drop, hJoin]

variable {fs : FileSystem}
variable {disk : Disk}
variable {name : CString}

/- Contents of a file that can be opened at its start. -/
theorem Holds.of_open
    {i : Fin NumDirEntries}
    {hdr : FileHeader}
    (hFind : disk.directory.findIndex name = some i)
    (hHdr :
      disk.headerAt
        (disk.directory.table i).sector.toNat = hdr)
    (hWf : hdr.WellFormed)
    (hOpen :
      ∀ memory, fs.openFile memory disk name =
        some (some ⟨hdr, 0⟩)) :
    Holds fs disk name (disk.contents hdr) where
  stored := ⟨i, hFind, by rw [hHdr]⟩
  printed := by
    intro memory fuel hFuel
    rw [Disk.length_contents] at hFuel
    have hLoop := printLoop_spec hWf
      (fun k => memory (k + 1)) disk (Nat.zero_le _) hFuel
    rw [List.drop_zero] at hLoop
    simp only [print, hOpen, Option.bind_eq_bind,
      Option.bind_some]
    exact Option.bind_eq_some_iff.mpr ⟨_, hLoop, rfl⟩
  returned := by
    intro memory sizes hSum
    rcases OpenFile.readAll_spec hWf
        (fun k => memory (k + 1)) disk (Nat.zero_le _)
        (show 0 + sizes.sum < 2 ^ 31 by omega) with
      ⟨pieces, hRun, hFlatten⟩
    exact ⟨_, pieces, hOpen (memory 0), hRun, hFlatten⟩

/- Whatever the chunks are, the file holds their bytes. -/
theorem copyChunks_spec
    (hDisk : disk.Consistent)
    (hMounted : fs.MountedOn disk)
    (memory : Nat → Memory)
    {chunks : List (List Byte)}
    (hLength : chunks.flatten.length ≤ MaxFileSize)
    (hAbsent : disk.directory.find name = -1)
    (hFree :
      FileHeader.sectorsFor chunks.flatten.length + 1 ≤
        disk.freeMap.numClear)
    (hEntry :
      ∃ k, (disk.directory.table k).isInUse = false) :
    ∃ disk',
      copyChunks fs memory disk chunks name =
        some (.copied, disk') ∧
      Holds fs disk' name chunks.flatten := by
  have hWrap : wrap (chunks.flatten.length : Int) =
      chunks.flatten.length := by
    apply wrap_of_mem
    · omega
    · simp only [MaxFileSize, NumDirect, SectorSize]
        at hLength
      omega
  rw [BitMap.numClear_eq] at hFree
  rcases FileSystem.create_cases hDisk hMounted (memory 0)
      name chunks.flatten.length with
    ⟨hReason, _⟩ |
      ⟨i, rest, j, hNone, hBits, hIndex, hRoom⟩
  · exfalso
    rcases hReason with hFound | hNil | hFull | hShort
    · exact hFound hAbsent
    · omega
    · rcases hEntry with ⟨k, hUnused⟩
      have hUsed := Directory.freeIndex_eq_none_iff.mp hFull k
      rw [hUnused] at hUsed
      exact Bool.noConfusion hUsed
    · omega
  · rcases FileSystem.create_spec hDisk hMounted (memory 0)
        hLength hNone hBits hIndex hRoom with
      ⟨disk₁, hCreate, _, hDisk₁, hMounted₁, hDirectory₁,
        hLength₁, _⟩
    have hIn : i.1 ∈ disk₁.directory.fileSectors := by
      rw [hDirectory₁, (Directory.fileSectors_set_assign
        hIndex name i.2).mem_iff]
      exact List.mem_cons_self
    have hFile := Disk.mem_fileSectors_of_mem hIn
    have hWf := hDisk₁.wellFormed i hFile
    have hOpen₁ := (FileSystem.openFile_of_set_assign hDisk₁
      hMounted₁ (memory 1) hNone hDirectory₁).1
    rcases OpenFile.writeAll_spec hWf
        (hDisk₁.separate.nodup_sectors hFile)
        (fun k => memory (k + 2)) disk₁
        (show 0 + chunks.flatten.length ≤ _ by
          rw [hLength₁]
          omega) with
      ⟨disk₂, hWrite, hContents, hFrame⟩
    rcases hDisk₁.write hIn hFrame with ⟨hDisk₂, hChange⟩
    have hMounted₂ := hMounted₁.of_headers
      (hChange.header_eq _ disk₁.freeMapSector_mem)
      (hChange.header_eq _ disk₁.directorySector_mem)
    have hDirectory₂ := hChange.directory_eq.trans hDirectory₁
    have hHdr := hChange.header_eq i hFile
    -- the writes cover the whole file
    rw [FixedArray.write_of_inside (by
        rw [Disk.length_contents, hLength₁]
        omega),
      List.take_zero, List.nil_append,
      List.drop_of_length_le (by
        rw [Disk.length_contents, hLength₁]
        omega),
      List.append_nil] at hContents
    refine ⟨disk₂, ?_, ?_⟩
    · simp only [copyChunks, store, hWrap, hCreate,
        Bool.not_true, Bool.false_eq_true, if_false, hOpen₁,
        Option.bind_eq_bind, Option.bind_some]
      exact Option.bind_eq_some_iff.mpr ⟨_, hWrite, rfl⟩
    · rw [← hContents, ← hHdr]
      have hSector :
          (disk₂.directory.table j).sector.toNat = i := by
        rw [hDirectory₂, Directory.table_set]
        exact DirectoryEntry.sector_assign _ _ i.2
      refine Holds.of_open (i := j) ?_ ?_ ?_ ?_
      · rw [hDirectory₂]
        exact Directory.findIndex_set_assign hNone j i
      · rw [hSector]
      · rw [hHdr]
        exact hWf
      · intro memory'
        exact (FileSystem.openFile_of_set_assign hDisk₂
          hMounted₂ memory' hNone hDirectory₂).1

/-
  A file that is copied to a new name, while there is room
  for it, is printed as it was.  Other cuts of the writes
  store the same bytes, and other cuts of the reads return
  them.
-/
theorem copy_then_print
    {s : Session}
    (hReach : (Session.system Handle.IsLive).Reachable s)
    {source : List Byte}
    (hLength : source.length ≤ MaxFileSize)
    {name : CString}
    (hAbsent : s.disk.directory.find name = -1)
    (hFree :
      FileHeader.sectorsFor source.length + 1 ≤
        s.disk.freeMap.numClear)
    (hEntry :
      ∃ k, (s.disk.directory.table k).isInUse = false)
    (memory : Nat → Memory) :
    (∃ disk,
      copy s.fs memory s.disk (some source) name =
        some (.copied, disk) ∧
      Holds s.fs disk name source) ∧
    ∀ chunks : List (List Byte),
      chunks.flatten = source →
      (∀ chunk ∈ chunks, chunk ≠ []) →
      ∃ disk,
        copyChunks s.fs memory s.disk chunks name =
          some (.copied, disk) ∧
        Holds s.fs disk name source := by
  have hValid := Session.valid_of_reachable hReach
  have hChunks : ∀ chunks : List (List Byte),
      chunks.flatten = source →
      ∃ disk,
        copyChunks s.fs memory s.disk chunks name =
          some (.copied, disk) ∧
        Holds s.fs disk name source := by
    rintro chunks rfl
    exact copyChunks_spec hValid.consistent hValid.mounted
      memory hLength hAbsent hFree hEntry
  refine ⟨?_, fun chunks hFlatten _ =>
    hChunks chunks hFlatten⟩
  rcases copyLoop_eq_writeAll source with
    ⟨chunks, hFlatten, _, hLoop⟩
  rcases hChunks chunks hFlatten with ⟨disk, hRun, hHolds⟩
  refine ⟨disk, ?_, hHolds⟩
  rw [← hRun, copy, copyChunks, hFlatten]
  simp only [hLoop]

theorem copy_then_print_eleven_bytes :
    ∃ (s : Session) (disk : Disk),
      s.Formatted ∧
      copy s.fs (fun _ => Memory.zero) s.disk
          (some (List.replicate 11 7)) CString.a =
        some (.copied, disk) ∧
      print s.fs (fun _ => Memory.zero) disk CString.a 12 =
        some (some (List.replicate 11 7)) := by
  rcases FileSystem.format_spec Memory.zero
      (fun _ _ => 0) with
    ⟨fs, disk, hFormat, hDisk, _, hEmpty⟩
  have hInit : (⟨fs, disk, []⟩ : Session).Formatted :=
    ⟨rfl, _, _, hFormat⟩
  have hReach : (Session.system Handle.IsLive).Reachable
      ⟨fs, disk, []⟩ :=
    .of_init hInit
  have hAbsent := Directory.find_of_findIndex_eq_none
    (Disk.findIndex_of_empty hEmpty CString.a)
  rcases hDisk.room_of_empty hEmpty with
    ⟨i, i', rest, j, hFree, hEntry⟩
  have hRoom :
      FileHeader.sectorsFor
          (List.replicate 11 (7 : Byte)).length + 1 ≤
        disk.freeMap.numClear := by
    rw [BitMap.numClear_eq, hFree,
      show FileHeader.sectorsFor
        (List.replicate 11 (7 : Byte)).length = 1 from rfl,
      List.length_cons, List.length_cons]
    omega
  rcases copy_then_print hReach (by decide) hAbsent hRoom
      ⟨j, Directory.freeIndex_eq_some hEntry⟩
      (fun _ => Memory.zero) with
    ⟨⟨disk', hCopy, hHolds⟩, _⟩
  exact ⟨_, disk', hInit, hCopy,
    hHolds.printed _ 12 (by decide)⟩

end FsTest

end Nachos
