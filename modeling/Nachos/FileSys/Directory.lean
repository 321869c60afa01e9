import Nachos.FileSys.StoredImage

/-
  The directory: a table of fixed-length entries that give
  the name of a file and the sector of its header.

  Main declarations:
    * `DirectoryEntry.image`
    * `Directory.remove`
-/

------------------------------------
-- C Strings
------------------------------------

namespace Nachos

open Bytes

/- A C string: the characters before the trailing '\\0'. -/
structure CString where
  chars : List Byte
  noNul : (0 : Byte) ∉ chars

namespace CString

/- Character `i`; zero from the terminator on. -/
def char
    (s : CString)
    (i : Nat) :
    Byte :=
  s.chars.getD i 0

end CString

/- `strncmp` of at most `n` characters from place `i` on. -/
def strncmpFrom
    (s t : Nat → Byte)
    (i : Nat) :
    Nat → Int
| 0 => 0
| n + 1 =>
    if s i ≠ t i then
      (s i).toNat - (t i).toNat
    else if s i = 0 then
      0
    else
      strncmpFrom s t (i + 1) n

def strncmp
    (s t : Nat → Byte)
    (n : Nat) :
    Int :=
  strncmpFrom s t 0 n

end Nachos

------------------------------------
-- Entries
------------------------------------

namespace Nachos

open Bytes

abbrev FileNameMaxLen : Nat := 9

/-
  An entry with the padding that aligns its fields in memory
  and on disk.
-/
structure DirectoryEntry where
  inUse : Byte
  padding : Fin 3 → Byte
  sector : BitVec 32
  name : Fin (FileNameMaxLen + 1) → Byte
  tail : Fin 2 → Byte

namespace DirectoryEntry

def fields :
    DirectoryEntry ≃
      Byte × (Fin 3 → Byte) × BitVec 32 ×
        (Fin (FileNameMaxLen + 1) → Byte) ×
        (Fin 2 → Byte) where
  toFun := fun e =>
    (e.inUse, e.padding, e.sector, e.name, e.tail)
  invFun := fun f => ⟨f.1, f.2.1, f.2.2.1, f.2.2.2.1, f.2.2.2.2⟩
  left_inv := fun _ => rfl
  right_inv := fun _ => rfl

abbrev size : Nat :=
  1 + (3 + (4 + (FileNameMaxLen + 1 + 2)))

/- Where the name starts in an entry. -/
abbrev nameOffset : Nat :=
  1 + (3 + 4)

/- The bytes of an entry. -/
def image : DirectoryEntry ≃ (Fin size → Byte) :=
  fields.trans
    (pairImage byteImage
      (pairImage (Equiv.refl _)
        (pairImage wordImage
          (pairImage (Equiv.refl _) (Equiv.refl _)))))

/- Character `i` of the name. -/
def nameChar
    (e : DirectoryEntry)
    (i : Nat) :
    Byte :=
  if h : i < FileNameMaxLen + 1 then
    e.name ⟨i, h⟩
  else
    0

def isInUse
    (e : DirectoryEntry) :
    Bool :=
  e.inUse != 0

/- Does the entry name this file? -/
def isNamed
    (e : DirectoryEntry)
    (name : CString) :
    Bool :=
  e.isInUse &&
    strncmp e.nameChar name.char FileNameMaxLen == 0

/-
  Put a file into the entry.  `strncpy` writes the first
  characters of the name, padded with zeros, and leaves the
  last byte of the array alone.
-/
def assign
    (e : DirectoryEntry)
    (name : CString)
    (newSector : Int) :
    DirectoryEntry :=
  { e with
    inUse := 1
    name := fun i =>
      if i.1 < FileNameMaxLen then
        name.char i
      else
        e.name i
    sector := BitVec.ofInt 32 newSector }

end DirectoryEntry

end Nachos

------------------------------------
-- The Table
------------------------------------

namespace Nachos

open Bytes

structure Directory (tableSize : Nat) where
  table : Fin tableSize → DirectoryEntry

namespace Directory

variable {tableSize : Nat}

def image :
    Directory tableSize ≃
      (Fin (tableSize * DirectoryEntry.size) → Byte) :=
  Equiv.trans
    { toFun := Directory.table
      invFun := Directory.mk
      left_inv := fun _ => rfl
      right_inv := fun _ => rfl }
    (arrayImage DirectoryEntry.image tableSize)

/- The constructor marks every entry of fresh memory unused. -/
def create
    (memory : Fin tableSize → DirectoryEntry) :
    Directory tableSize :=
  ⟨fun i => { memory i with inUse := 0 }⟩

def fetchFrom
    (d : Directory tableSize)
    (file : OpenFile)
    (memory : Memory)
    (disk : Disk) :
    Option (Directory tableSize) :=
  file.fetchImage image memory disk d

def writeBack
    (d : Directory tableSize)
    (file : OpenFile)
    (memory : Memory)
    (disk : Disk) :
    Option Disk :=
  file.storeImage image memory disk d

/- The first entry with a name; `none` is the result -1. -/
def findIndex
    (d : Directory tableSize)
    (name : CString) :
    Option (Fin tableSize) :=
  (List.finRange tableSize).find? fun i =>
    (d.table i).isNamed name

/- The sector of a file's header, or -1. -/
def find
    (d : Directory tableSize)
    (name : CString) :
    Int :=
  match d.findIndex name with
  | some i => (d.table i).sector.toInt
  | none => -1

/- Put an entry into the table. -/
def set
    (d : Directory tableSize)
    (i : Fin tableSize)
    (e : DirectoryEntry) :
    Directory tableSize :=
  ⟨Function.update d.table i e⟩

/- The first entry that is not in use. -/
def freeIndex
    (d : Directory tableSize) :
    Option (Fin tableSize) :=
  (List.finRange tableSize).find? fun i =>
    !(d.table i).isInUse

/-
  Add a file; false when the name is already in the directory
  or the directory is completely full.
-/
def add
    (d : Directory tableSize)
    (name : CString)
    (newSector : Int) :
    Bool × Directory tableSize :=
  if (d.findIndex name).isSome then
    (false, d)
  else
    match d.freeIndex with
    | some i =>
        (true,
          d.set i ((d.table i).assign name newSector))
    | none => (false, d)

/- Remove a file; false when it is not in the directory. -/
def remove
    (d : Directory tableSize)
    (name : CString) :
    Bool × Directory tableSize :=
  match d.findIndex name with
  | some i =>
      (true, d.set i { d.table i with inUse := 0 })
  | none => (false, d)

/-
  The characters before the zero that ends a string; `none`
  when there is no zero.
-/
def untilZero :
    List Byte → Option (List Byte)
| [] => none
| c :: rest =>
    if c = 0 then
      some []
    else
      (untilZero rest).map (c :: ·)

/-
  The names that are printed.  A name that fills its array is
  not ended by a zero of its own, so that the bytes behind it
  are printed too.
-/
def list
    (d : Directory tableSize) :
    Option (List (List Byte)) :=
  ((List.finRange tableSize).filter fun i =>
      (d.table i).isInUse).mapM fun i =>
    untilZero
      ((List.ofFn (image d)).drop
        (i * DirectoryEntry.size + DirectoryEntry.nameOffset))

end Directory

end Nachos
