import Nachos.FileSys.Directory

/-
  The file system: a free map and a directory that are kept
  in files of their own, whose headers are in well-known
  sectors.

  Operations give `none` when an assertion fails or the code
  leaves one of its arrays.

  Main declarations:
    * `FileSystem.create`
    * `FileSystem.remove`
-/

------------------------------------
-- Layout
------------------------------------

namespace Nachos

open Bytes

abbrev FreeMapSector : Nat := 0

abbrev DirectorySector : Nat := 1

abbrev FreeMapFileSize : Nat := NumSectors / BitsInByte

abbrev NumDirEntries : Nat := 10

abbrev DirectoryFileSize : Nat :=
  NumDirEntries * DirectoryEntry.size

structure FileSystem where
  freeMapFile : OpenFile
  directoryFile : OpenFile

namespace Memory

/- What block `k` holds when it is used as a bitmap. -/
def bitMap
    (memory : Memory)
    (k : Nat) :
    BitMap NumSectors :=
  BitMap.create (BitMap.image.symm fun i => memory k i).map

/- What block `k` holds when it is used as a directory. -/
def directory
    (memory : Memory)
    (k : Nat) :
    Directory NumDirEntries :=
  Directory.create
    (Directory.image.symm fun i => memory k i).table

/- What block `k` holds when it is used as a header. -/
def header
    (memory : Memory)
    (k : Nat) :
    FileHeader :=
  FileHeader.image.symm fun i => memory k i

end Memory

end Nachos

------------------------------------
-- Start Up
------------------------------------

namespace Nachos

namespace FileSystem

/-
  Open the files of the bitmap and the directory, which are
  left open from then on.
-/
def mount
    (disk : Disk) :
    Option FileSystem := do
  let freeMapFile ← OpenFile.openAt disk FreeMapSector
  let directoryFile ← OpenFile.openAt disk DirectorySector
  some ⟨freeMapFile, directoryFile⟩

/- Initialize an empty file system on a disk of garbage. -/
def format
    (memory : Memory)
    (disk : Disk) :
    Option (FileSystem × Disk) := do
  let freeMap := memory.bitMap 0
  let directory := memory.directory 1
  let mapHdr := memory.header 2
  let dirHdr := memory.header 3
  let freeMap ← freeMap.mark FreeMapSector
  let freeMap ← freeMap.mark DirectorySector
  let (mapOk, mapHdr, freeMap) ←
    mapHdr.allocate freeMap FreeMapFileSize
  guard mapOk
  let (dirOk, dirHdr, freeMap) ←
    dirHdr.allocate freeMap DirectoryFileSize
  guard dirOk
  let disk ← mapHdr.writeBack disk FreeMapSector
  let disk ← dirHdr.writeBack disk DirectorySector
  let fs ← mount disk
  let disk ←
    freeMap.writeBack fs.freeMapFile (memory.after 4) disk
  let disk ←
    directory.writeBack fs.directoryFile
      (memory.after 7) disk
  some (fs, disk)

------------------------------------
-- Operations
------------------------------------

/-
  Create a file of a fixed size.  The result is false when
  the name is in the directory, there is no sector for the
  header, no free entry, or no space for the data; the
  changed copies are discarded then.
-/
def create
    (fs : FileSystem)
    (memory : Memory)
    (disk : Disk)
    (name : CString)
    (initialSize : Int) :
    Option (Bool × Disk) := do
  let directory ←
    (memory.directory 0).fetchFrom fs.directoryFile
      (memory.after 1) disk
  if directory.find name ≠ -1 then
    some (false, disk)
  else
    let freeMap ←
      (memory.bitMap 2).fetchFrom fs.freeMapFile
        (memory.after 3) disk
    let (sector, freeMap) := freeMap.find
    if sector = -1 then
      some (false, disk)
    else
      let (added, directory) := directory.add name sector
      if !added then
        some (false, disk)
      else
        let (allocated, hdr, freeMap) ←
          (memory.header 4).allocate freeMap initialSize
        if !allocated then
          some (false, disk)
        else
          let disk ← hdr.writeBack disk sector
          let disk ←
            directory.writeBack fs.directoryFile
              (memory.after 5) disk
          let disk ←
            freeMap.writeBack fs.freeMapFile
              (memory.after 8) disk
          some (true, disk)

/- Open a file by name; the inner `none` is a null pointer. -/
def openFile
    (fs : FileSystem)
    (memory : Memory)
    (disk : Disk)
    (name : CString) :
    Option (Option OpenFile) := do
  let directory ←
    (memory.directory 0).fetchFrom fs.directoryFile
      (memory.after 1) disk
  let sector := directory.find name
  if sector ≥ 0 then
    let file ← OpenFile.openAt disk sector
    some (some file)
  else
    some none

/- Delete a file; false when it is not in the directory. -/
def remove
    (fs : FileSystem)
    (memory : Memory)
    (disk : Disk)
    (name : CString) :
    Option (Bool × Disk) := do
  let directory ←
    (memory.directory 0).fetchFrom fs.directoryFile
      (memory.after 1) disk
  let sector := directory.find name
  if sector = -1 then
    some (false, disk)
  else
    let fileHdr ← FileHeader.fetchFrom disk sector
    let freeMap ←
      (memory.bitMap 2).fetchFrom fs.freeMapFile
        (memory.after 3) disk
    let freeMap ← fileHdr.deallocate freeMap
    let freeMap ← freeMap.clear sector
    let (_, directory) := directory.remove name
    let disk ←
      freeMap.writeBack fs.freeMapFile
        (memory.after 4) disk
    let disk ←
      directory.writeBack fs.directoryFile
        (memory.after 7) disk
    some (true, disk)

/-
  The names of all files; the inner `none` is a name that
  runs out of the table.
-/
def list
    (fs : FileSystem)
    (memory : Memory)
    (disk : Disk) :
    Option (Option (List (List Bytes.Byte))) := do
  let directory ←
    (memory.directory 0).fetchFrom fs.directoryFile
      (memory.after 1) disk
  some directory.list

end FileSystem

end Nachos
