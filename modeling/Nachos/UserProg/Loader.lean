import Nachos.Bin.Coff2Noff
import Nachos.FileSys.OpenFile
import Nachos.Lib.FixedArray
import Nachos.UserProg.Isolation

/-
  Loading a program into memory.

  The executable is a file that returns the bytes it is asked
  for.  `none` is a failed assertion, or a copy that leaves the
  memory of the machine.  The host is little-endian, so that
  the header is never swapped.

  Main declarations:
    * `Executable.readAt`
    * `AddrSpace.load`
-/

------------------------------------
-- Executables
------------------------------------

namespace Nachos

open Bytes

abbrev UserStackSize : Nat := 1024

/- The bytes of an object code file. -/
abbrev Executable :=
  List Byte

namespace Executable

def readAt
    (executable : Executable)
    (numBytes position : Int) :
    Option (List Byte) :=
  if 0 ≤ position then
    some (FixedArray.read executable numBytes position.toNat)
  else
    none

/- Copy in a segment that is not empty. -/
def readSegment
    (executable : Executable)
    (segment : Segment)
    (mainMemory : Nat → Byte) :
    Option (Nat → Byte) :=
  if segment.size.toInt > 0 then do
    let bytes ← executable.readAt segment.size.toInt
      segment.inFileAddr.toInt
    Buffer.copyIn mainMemory MemorySize
      segment.virtualAddr.toInt bytes bytes.length
  else
    some mainMemory

end Executable

end Nachos

------------------------------------
-- Address Spaces
------------------------------------

namespace Nachos

open Bytes CInt

/- Virtual and physical pages are the same. -/
def TranslationEntry.initial
    (i : Nat) :
    TranslationEntry where
  virtualPage := BitVec.ofNat 32 i
  physicalPage := BitVec.ofNat 32 i
  valid := true
  use := false
  dirty := false
  readOnly := false

namespace NoffHeader

/-
  The size of the address space in pages.  The sizes are added
  up as words.
-/
def numPages
    (noffH : NoffHeader) :
    Int :=
  let size := noffH.code.size + noffH.initData.size +
    noffH.uninitData.size + BitVec.ofNat 32 UserStackSize
  divRoundUp size.toNat PageSize

end NoffHeader

namespace AddrSpace

/-
  `AddrSpace::AddrSpace`, with the memory of the machine that
  it fills.  `garbage` is what the header holds before it is
  read.
-/
def load
    (garbage : NoffHeader)
    (executable : Executable)
    (mainMemory : Nat → Byte) :
    Option (AddrSpace × (Nat → Byte)) := do
  let bytes ← executable.readAt NoffHeader.size 0
  let noffH := NoffHeader.image.symm
    (overlay (NoffHeader.image garbage) bytes)
  if noffH.noffMagic = NOFFMAGIC ∧
      noffH.numPages ≤ NumPhysPages then
    let size := noffH.numPages.toNat * PageSize
    let mainMemory := fun a =>
      if a < size then 0 else mainMemory a
    let mainMemory ←
      executable.readSegment noffH.code mainMemory
    let mainMemory ←
      executable.readSegment noffH.initData mainMemory
    some
      ({ pageTable := TranslationEntry.initial
         numPages := BitVec.ofInt 32 noffH.numPages },
        mainMemory)
  else
    none

end AddrSpace

end Nachos
