import Nachos.FileSys.SynchDisk

/-
  The memory and the registers of the simulated machine, and
  the translation of virtual addresses.

  A trap is a call of the exception handler with the machine
  as the handler finds it, a failed assertion, or an access
  outside of the register file that C++ leaves undefined.

  Main declarations:
    * `Machine`
    * `Machine.delayedLoad`
-/

------------------------------------
-- The State of the Machine
------------------------------------

namespace Nachos

open Bytes

abbrev PageSize : Nat := SectorSize

abbrev NumPhysPages : Nat := 32

abbrev MemorySize : Nat := NumPhysPages * PageSize

abbrev TLBSize : Nat := 4

abbrev NumGPRegs : Nat := 32

abbrev NumTotalRegs : Nat := 40

abbrev Word :=
  BitVec 32

abbrev Register :=
  Fin NumTotalRegs

abbrev StackReg : Register := 29

abbrev HiReg : Register := 32

abbrev LoReg : Register := 33

abbrev PCReg : Register := 34

abbrev NextPCReg : Register := 35

abbrev PrevPCReg : Register := 36

abbrev LoadReg : Register := 37

abbrev LoadValueReg : Register := 38

abbrev BadVAddrReg : Register := 39

/- `NoException` is a translation that succeeds. -/
inductive ExceptionType where
  | syscall
  | pageFault
  | readOnly
  | busError
  | addressError
  | overflow
  | illegalInstr
  deriving DecidableEq

structure TranslationEntry where
  virtualPage : Word
  physicalPage : Word
  valid : Bool
  readOnly : Bool
  use : Bool
  dirty : Bool
  deriving DecidableEq

/- A table that is `none` is a null pointer. -/
structure Machine where
  registers : Register → Word
  mainMemory : Nat → Byte
  tlb : Option (Fin TLBSize → TranslationEntry)
  pageTable : Option (Nat → TranslationEntry)
  pageTableSize : Word

inductive Trap where
  | exception (which : ExceptionType) (machine : Machine)
  | abort
  | undefined

end Nachos

------------------------------------
-- Exceptions
------------------------------------

namespace Nachos

namespace Machine

def writeRegister
    (m : Machine)
    (num : Register)
    (value : Word) :
    Machine :=
  { m with
    registers := Function.update m.registers num value }

/- Commit the pending load and leave the next one pending. -/
def delayedLoad
    (m : Machine)
    (nextReg nextValue : Word) :
    Except Trap Machine :=
  if h : (m.registers LoadReg).toNat < NumTotalRegs then
    let m := m.writeRegister ⟨_, h⟩ (m.registers LoadValueReg)
    let m := m.writeRegister LoadReg nextReg
    let m := m.writeRegister LoadValueReg nextValue
    .ok (m.writeRegister 0 0)
  else
    .error .undefined

/-
  Enter the exception handler: note the failing address and
  finish the pending load.
-/
def raised
    (m : Machine)
    (which : ExceptionType)
    (badVAddr : Word) :
    Trap :=
  match (m.writeRegister BadVAddrReg badVAddr).delayedLoad
      0 0 with
  | .ok m => .exception which m
  | .error trap => trap

def raiseException
    {α : Type}
    (m : Machine)
    (which : ExceptionType)
    (badVAddr : Word) :
    Except Trap α :=
  .error (m.raised which badVAddr)

end Machine

end Nachos

------------------------------------
-- Translation
------------------------------------

namespace Nachos

open Bytes

/-
  Use a table entry to access `size` bytes.  The result is
  the physical address with the new entry; `none` is a failed
  assertion.
-/
def TranslationEntry.access
    (entry : TranslationEntry)
    (offset size : Nat)
    (writing : Bool) :
    Option (Except ExceptionType (Nat × TranslationEntry)) :=
  let pageFrame := entry.physicalPage.toNat
  let physAddr := pageFrame * PageSize + offset
  if entry.readOnly && writing then
    some (.error .readOnly)
  else if pageFrame ≥ NumPhysPages then
    some (.error .busError)
  else if physAddr + size ≤ MemorySize then
    some (.ok (physAddr,
      { entry with
        use := true
        dirty := entry.dirty || writing }))
  else
    none

namespace Machine

/- The TLB entry that is used for a page, if there is one. -/
def findEntry
    (tlb : Fin TLBSize → TranslationEntry)
    (vpn : Nat) :
    Option (Fin TLBSize) :=
  (List.finRange TLBSize).find? fun i =>
    (tlb i).valid && (tlb i).virtualPage.toNat == vpn

/- Access through an entry of the page table. -/
def usePage
    (m : Machine)
    (pageTable : Nat → TranslationEntry)
    (vpn offset size : Nat)
    (writing : Bool) :
    Option (Except ExceptionType (Nat × Machine)) := do
  let result ← (pageTable vpn).access offset size writing
  some (result.map fun r =>
    (r.1,
      { m with
        pageTable :=
          some (Function.update pageTable vpn r.2) }))

/- Access through an entry of the TLB. -/
def useTLB
    (m : Machine)
    (tlb : Fin TLBSize → TranslationEntry)
    (i : Fin TLBSize)
    (offset size : Nat)
    (writing : Bool) :
    Option (Except ExceptionType (Nat × Machine)) := do
  let result ← (tlb i).access offset size writing
  some (result.map fun r =>
    (r.1,
      { m with tlb := some (Function.update tlb i r.2) }))

/-
  Translate a virtual address with the page table or the TLB.
  `none` is a failed assertion: there has to be one of the
  two tables, but not both.
-/
def translate
    (m : Machine)
    (virtAddr : Word)
    (size : Nat)
    (writing : Bool) :
    Option (Except ExceptionType (Nat × Machine)) :=
  let vpn := virtAddr.toNat / PageSize
  let offset := virtAddr.toNat % PageSize
  if size = 4 ∧ virtAddr &&& 3 ≠ 0 ∨
      size = 2 ∧ virtAddr &&& 1 ≠ 0 then
    some (.error .addressError)
  else
    match m.tlb, m.pageTable with
    | none, some pageTable =>
        if vpn ≥ m.pageTableSize.toNat then
          some (.error .addressError)
        else if (pageTable vpn).valid = false then
          some (.error .pageFault)
        else
          m.usePage pageTable vpn offset size writing
    | some tlb, none =>
        match findEntry tlb vpn with
        | none => some (.error .pageFault)
        | some i => m.useTLB tlb i offset size writing
    | _, _ => none

/- Translate, and raise the exception if that fails. -/
def translateOrRaise
    (m : Machine)
    (addr : Word)
    (size : Nat)
    (writing : Bool) :
    Except Trap (Nat × Machine) :=
  match m.translate addr size writing with
  | none => .error .abort
  | some (.error which) => m.raiseException which addr
  | some (.ok result) => .ok result

/-
  Read 1, 2 or 4 bytes; a single byte is a signed `char`.
-/
def readMem
    (m : Machine)
    (addr : Word)
    (size : Nat) :
    Except Trap (Word × Machine) := do
  let (physicalAddress, m) ← m.translateOrRaise addr size false
  let byte (k : Nat) := m.mainMemory (physicalAddress + k)
  match size with
  | 1 => .ok ((byte 0).signExtend 32, m)
  | 2 => .ok ((byte 1 ++ byte 0).setWidth 32, m)
  | 4 => .ok (wordOfBytes fun k => byte k, m)
  | _ => .error .abort

/- The low bytes of a value, least significant first. -/
def storeBytes
    (mainMemory : Nat → Byte)
    (physicalAddress size : Nat)
    (value : Word) :
    Nat → Byte :=
  fun a =>
    if physicalAddress ≤ a ∧ a < physicalAddress + size then
      wordByte value (a - physicalAddress)
    else
      mainMemory a

/- Write 1, 2 or 4 bytes. -/
def writeMem
    (m : Machine)
    (addr : Word)
    (size : Nat)
    (value : Word) :
    Except Trap Machine := do
  let (physicalAddress, m) ← m.translateOrRaise addr size true
  if size = 1 ∨ size = 2 ∨ size = 4 then
    .ok
      { m with
        mainMemory :=
          storeBytes m.mainMemory physicalAddress size
            value }
  else
    .error .abort

end Machine

end Nachos
