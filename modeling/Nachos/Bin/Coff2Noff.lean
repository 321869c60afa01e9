import Nachos.Lib.Bytes
import Mathlib.Data.Fin.VecNotation
import Mathlib.Data.Fintype.Basic

/-
  The conversion of COFF files into the object code format of
  Nachos.

  A file is its list of bytes, and `none` is an exit with an
  error.  The host is little-endian, so that words and short
  words need no conversion, and a `long` has 32 bits.  What
  the header of the output holds before it is filled in is a
  parameter.

  Main declarations:
    * `ScnHdr`
    * `InFile.read`
-/

------------------------------------
-- Object Code Files
------------------------------------

namespace Nachos

open Bytes

abbrev NOFFMAGIC : BitVec 32 := 0xbadfad

structure Segment where
  virtualAddr : BitVec 32
  inFileAddr : BitVec 32
  size : BitVec 32
  deriving DecidableEq

structure NoffHeader where
  noffMagic : BitVec 32
  code : Segment
  initData : Segment
  uninitData : Segment
  deriving DecidableEq

namespace NoffHeader

/- `sizeof(NoffHeader)`. -/
abbrev size : Nat := 10 * 4

/- A header is a row of words. -/
def words :
    NoffHeader ≃ (Fin 10 → BitVec 32) where
  toFun := fun hdr =>
    ![hdr.noffMagic,
      hdr.code.virtualAddr, hdr.code.inFileAddr,
      hdr.code.size,
      hdr.initData.virtualAddr, hdr.initData.inFileAddr,
      hdr.initData.size,
      hdr.uninitData.virtualAddr, hdr.uninitData.inFileAddr,
      hdr.uninitData.size]
  invFun := fun w =>
    ⟨w 0, ⟨w 1, w 2, w 3⟩, ⟨w 4, w 5, w 6⟩, ⟨w 7, w 8, w 9⟩⟩
  left_inv := fun _ => rfl
  right_inv := by
    intro w
    funext i
    fin_cases i <;> rfl

def image :
    NoffHeader ≃ (Fin size → Byte) :=
  words.trans (arrayImage wordImage 10)

end NoffHeader

end Nachos

------------------------------------
-- COFF Files
------------------------------------

namespace Nachos

open Bytes

abbrev MIPSELMAGIC : BitVec 16 := 0x0162

/- The number is 0407 in octal. -/
abbrev OMAGIC : BitVec 16 := 0x0107

/- The sizes of the three kinds of headers in a COFF file. -/
abbrev FileHdrSize : Nat := 20

abbrev AoutHdrSize : Nat := 56

abbrev ScnHdrSize : Nat := 40

def wordAt
    (bytes : List Byte)
    (p : Nat) :
    BitVec 32 :=
  wordOfBytes fun k => bytes.getD (p + k) 0

def shortAt
    (bytes : List Byte)
    (p : Nat) :
    BitVec 16 :=
  bytes.getD (p + 1) 0 ++ bytes.getD p 0

/- The fields of a section header that are used. -/
structure ScnHdr where
  sName : List Byte
  sPaddr : BitVec 32
  sSize : BitVec 32
  sScnptr : BitVec 32
  deriving DecidableEq

namespace ScnHdr

/- The section header at position `p` of a table. -/
def decode
    (table : List Byte)
    (p : Nat) :
    ScnHdr where
  sName := (List.range 8).map fun k => table.getD (p + k) 0
  sPaddr := wordAt table (p + 8)
  sSize := wordAt table (p + 16)
  sScnptr := wordAt table (p + 20)

/-
  `strcmp` of the name with a literal, which is shorter than
  the array of the name.
-/
def isCalled
    (s : ScnHdr)
    (literal : List Char) :
    Bool :=
  (literal.map (fun c : Char => BitVec.ofNat 8 c.toNat) ++
    [0]).isPrefixOf s.sName

def isText
    (s : ScnHdr) :
    Bool :=
  s.isCalled ['.', 't', 'e', 'x', 't']

def isData
    (s : ScnHdr) :
    Bool :=
  s.isCalled ['.', 'd', 'a', 't', 'a'] ||
    s.isCalled ['.', 'r', 'd', 'a', 't', 'a']

def isBss
    (s : ScnHdr) :
    Bool :=
  s.isCalled ['.', 'b', 's', 's'] ||
    s.isCalled ['.', 's', 'b', 's', 's']

end ScnHdr

/- A file that is open for reading. -/
structure InFile where
  bytes : List Byte
  position : Nat

namespace InFile

/- A negative offset is an error, which nobody checks. -/
def lseek
    (f : InFile)
    (offset : Int) :
    InFile :=
  if 0 ≤ offset then
    { f with position := offset.toNat }
  else
    f

/-
  Read, and exit unless as many bytes were read.  A negative
  number of bytes makes `read` return -1.
-/
def read
    (f : InFile)
    (nBytes : Int) :
    Option (List Byte × InFile) :=
  if nBytes < 0 then
    if nBytes = -1 then
      some ([], f)
    else
      none
  else
    let buf := (f.bytes.drop f.position).take nBytes.toNat
    if buf.length = nBytes.toNat then
      some (buf,
        { f with position := f.position + nBytes.toNat })
    else
      none

end InFile

end Nachos

------------------------------------
-- The Conversion
------------------------------------

namespace Nachos

open Bytes

/-
  The variables of the loop over the sections; `segments` is
  what was written behind the header.
-/
structure Converter where
  fdIn : InFile
  noffH : NoffHeader
  inNoffFile : BitVec 32
  segments : List Byte

namespace Converter

/- Copy the bytes of a section to the output. -/
def copySection
    (c : Converter)
    (s : ScnHdr) :
    Option Converter := do
  let fdIn := c.fdIn.lseek s.sScnptr.toInt
  let (buffer, fdIn) ← fdIn.read s.sSize.toInt
  some
    { c with
      fdIn := fdIn
      segments := c.segments ++ buffer
      inNoffFile := c.inNoffFile + s.sSize }

/- The segment that a section becomes. -/
def segment
    (c : Converter)
    (s : ScnHdr) :
    Segment where
  virtualAddr := s.sPaddr
  inFileAddr := c.inNoffFile
  size := s.sSize

def convertText
    (c : Converter)
    (s : ScnHdr) :
    Option Converter :=
  copySection
    { c with noffH := { c.noffH with code := c.segment s } } s

def convertData
    (c : Converter)
    (s : ScnHdr) :
    Option Converter :=
  if c.noffH.initData.size ≠ 0 then
    none
  else
    copySection
      { c with
        noffH := { c.noffH with initData := c.segment s } } s

/-
  Sections that are contiguous are the ones that are not
  accepted.
-/
def convertBss
    (c : Converter)
    (s : ScnHdr) :
    Option Converter :=
  let uninitData := c.noffH.uninitData
  if uninitData.size ≠ 0 then
    if s.sPaddr = uninitData.virtualAddr + uninitData.size then
      none
    else
      some
        { c with
          noffH :=
            { c.noffH with
              uninitData :=
                { uninitData with
                  size := uninitData.size + s.sSize } } }
  else
    some
      { c with
        noffH :=
          { c.noffH with
            uninitData :=
              { uninitData with
                virtualAddr := s.sPaddr
                size := s.sSize } } }

/- One round of the loop. -/
def convert
    (c : Converter)
    (s : ScnHdr) :
    Option Converter :=
  if s.sSize = 0 then
    some c
  else if s.isText then
    c.convertText s
  else if s.isData then
    c.convertData s
  else if s.isBss then
    c.convertBss s
  else
    none

end Converter

/- Only the sizes and the magic number are initialized. -/
def NoffHeader.initial
    (memory : NoffHeader) :
    NoffHeader where
  noffMagic := NOFFMAGIC
  code := { memory.code with size := 0 }
  initData := { memory.initData with size := 0 }
  uninitData := { memory.uninitData with size := 0 }

def NoffHeader.blank : NoffHeader :=
  ⟨0, ⟨0, 0, 0⟩, ⟨0, 0, 0⟩, ⟨0, 0, 0⟩⟩

/- The result is the file that is written. -/
def coff2noff
    (memory : NoffHeader)
    (coff : List Byte) :
    Option (List Byte) := do
  let fdIn : InFile := ⟨coff, 0⟩
  let (fileh, fdIn) ← fdIn.read FileHdrSize
  if shortAt fileh 0 = MIPSELMAGIC then
    let (systemh, fdIn) ← fdIn.read AoutHdrSize
    if shortAt systemh 0 = OMAGIC then
      let numsections := (shortAt fileh 2).toNat
      let (table, fdIn) ←
        fdIn.read ((numsections * ScnHdrSize : Nat) : Int)
      let sections := (List.range numsections).map fun i =>
        ScnHdr.decode table (i * ScnHdrSize)
      let c ← sections.foldlM Converter.convert
        { fdIn := fdIn
          noffH := memory.initial
          inNoffFile := BitVec.ofNat 32 NoffHeader.size
          segments := [] }
      some (List.ofFn (NoffHeader.image c.noffH) ++ c.segments)
    else
      none
  else
    none

end Nachos
