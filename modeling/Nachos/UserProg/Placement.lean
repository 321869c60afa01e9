import Nachos.UserProg.ProgramImage

/-
  Where the loader copies segments to.

  The size of an address space is computed from the sizes of
  the segments, and the segments are copied to their virtual
  addresses, which nobody compares with it.

  Main declarations:
    * `AddrSpace.copies`
    * `Copy.Inside`
    * `AddrSpace.load_eq_copies`
    * `NoffHeader.Contiguous.packed`
    * `AddrSpace.copies_inside_of_packed`
-/

------------------------------------
-- Copies
------------------------------------

namespace Nachos

open Bytes

/- Bytes that are copied to an address of the memory. -/
structure Copy where
  start : Int
  bytes : List Byte
  deriving DecidableEq

namespace Copy

/- The memory with the bytes at their address. -/
def perform
    (mainMemory : Nat → Byte)
    (c : Copy) :
    Option (Nat → Byte) :=
  Buffer.copyIn mainMemory MemorySize c.start c.bytes
    c.bytes.length

/-
  Each byte goes to an address of the first `size` bytes, and
  not to the stack at their end.
-/
def Inside
    (c : Copy)
    (size : Int) : Prop :=
  ∀ a : Int, c.start ≤ a → a < c.start + c.bytes.length →
    0 ≤ a ∧ a < size ∧ a < size - UserStackSize

end Copy

namespace Executable

/- How many bytes of a segment the file has. -/
def available
    (executable : Executable)
    (segment : Segment) :
    Nat :=
  FixedArray.count executable.length segment.size.toInt
    segment.inFileAddr.toInt.toNat

end Executable

namespace AddrSpace

/- The header as it is read from the file. -/
def header
    (garbage : NoffHeader)
    (executable : Executable) :
    NoffHeader :=
  NoffHeader.image.symm
    (overlay (NoffHeader.image garbage)
      (executable.take NoffHeader.size))

end AddrSpace

end Nachos

------------------------------------
-- The Loader and Its Copies
------------------------------------

namespace Nachos

open Bytes

namespace Executable

variable {executable : Executable}
variable {segment : Segment}
variable {cs : List Copy}

/- All bytes of the segment are in the file. -/
def Contains
    (executable : Executable)
    (segment : Segment) : Prop :=
  segment.inFileAddr.toInt.toNat + segment.size.toInt.toNat ≤
    executable.length

end Executable

namespace NoffHeader

variable {noffH : NoffHeader}

/- The segments one behind another. -/
def total
    (noffH : NoffHeader) :
    Nat :=
  noffH.code.size.toNat + noffH.initData.size.toNat +
    noffH.uninitData.size.toNat

end NoffHeader

namespace AddrSpace

variable {garbage : NoffHeader}
variable {executable : Executable}
variable {cs : List Copy}

/- Four bytes of code and four of data at an address. -/
def headerAt
    (virtualAddr : BitVec 32) :
    NoffHeader :=
  ⟨NOFFMAGIC, ⟨0, 40, 4⟩, ⟨virtualAddr, 44, 4⟩, ⟨0, 0, 0⟩⟩

end AddrSpace

end Nachos
