import Nachos.Lib.Assembly

/-
  The part of a thread that its host processor knows.

  A thread object begins with `stackTop` and the words of
  `machineState`; `SWITCH` finds the saved registers there by
  their offsets.  The host has 32-bit words, and only words
  at multiples of four are read or written: any other access
  is `none`.

  Main declarations:
    * `HostWord`
    * `HostAligned`
    * `Saved.of_agree`
    * `inObject_add`
-/

------------------------------------
-- Words of the Host
------------------------------------

namespace Nachos

abbrev HostWord :=
  BitVec 32

def HostAligned
    (a : HostWord) : Prop :=
  a.toNat % 4 = 0

instance hostAlignedDecidable
    (a : HostWord) :
    Decidable (HostAligned a) :=
  inferInstanceAs (Decidable (a.toNat % 4 = 0))

theorem HostAligned.add
    {a d : HostWord}
    (hBase : HostAligned a)
    (hOffset : HostAligned d) :
    HostAligned (a + d) := by
  unfold HostAligned at *
  rw [BitVec.toNat_add]
  omega

variable {ρ : Type}

def readWord
    (c : Assembly.Cpu ρ HostWord)
    (a : HostWord) :
    Option HostWord :=
  if HostAligned a then some (c.mem a) else none

def writeWord
    (c : Assembly.Cpu ρ HostWord)
    (a v : HostWord) :
    Option (Assembly.Cpu ρ HostWord) :=
  if HostAligned a then some (c.write a v) else none

theorem readWord_of_aligned
    {c : Assembly.Cpu ρ HostWord}
    {a : HostWord}
    (hAligned : HostAligned a) :
    readWord c a = some (c.mem a) :=
  if_pos hAligned

theorem writeWord_of_aligned
    {c : Assembly.Cpu ρ HostWord}
    {a v : HostWord}
    (hAligned : HostAligned a) :
    writeWord c a v = some (c.write a v) :=
  if_pos hAligned

end Nachos

------------------------------------
-- Thread Objects and Stacks
------------------------------------

namespace Nachos

/- The words of `machineState`. -/
abbrev MachineStateSize : Nat := 18

/- The size of an execution stack, in words. -/
abbrev StackSize : Nat := 4 * 1024

def STACK_FENCEPOST : HostWord :=
  0xdeadbeef#32

/- The bytes of `stackTop` and `machineState` of an object. -/
def InObject
    (object a : HostWord) : Prop :=
  (a - object).toNat < 4 * (1 + MachineStateSize)

instance inObjectDecidable
    (object a : HostWord) :
    Decidable (InObject object a) :=
  inferInstanceAs (Decidable (_ < _))

/- The bytes of a stack. -/
def InStack
    (stack a : HostWord) : Prop :=
  (a - stack).toNat < 4 * StackSize

instance inStackDecidable
    (stack a : HostWord) :
    Decidable (InStack stack a) :=
  inferInstanceAs (Decidable (_ < _))

theorem inObject_add
    {object d : HostWord}
    (hOffset : d.toNat < 4 * (1 + MachineStateSize)) :
    InObject object (object + d) := by
  have hDiff : object + d - object = d := by
    bv_omega
  rw [InObject, hDiff]
  exact hOffset

theorem inStack_add
    (stack : HostWord)
    {d : HostWord}
    (hOffset : d.toNat < 4 * StackSize) :
    InStack stack (stack + d) := by
  have hDiff : stack + d - stack = d := by
    bv_omega
  rw [InStack, hDiff]
  exact hOffset

/- Words of an object at distinct offsets are distinct. -/
theorem add_offset_inj
    {object d e : HostWord}
    (hEq : object + d = object + e) :
    d = e := by
  bv_omega

------------------------------------
-- Saved Contexts
------------------------------------

variable {ρ : Type}

/-
  What a thread that does not run is worth: the address of
  its object, its registers and the memory it left.
-/
structure SavedContext (ρ : Type) where
  object : HostWord
  reg : ρ → HostWord
  stack : HostWord → HostWord

/-
  The registers of the table lie in the thread object, and
  what else the thread owns is as it left it.
-/
structure Saved
    (table : List (ρ × HostWord))
    (c : SavedContext ρ)
    (P : HostWord → Prop)
    (mem : HostWord → HostWord) : Prop where
  aligned : HostAligned c.object
  object : ∀ a, InObject c.object a → P a
  registers :
    ∀ e ∈ table, mem (c.object + e.2) = c.reg e.1
  stack :
    ∀ a, P a → ¬ InObject c.object a → mem a = c.stack a

/- Only the words of the thread itself matter. -/
theorem Saved.of_agree
    {table : List (ρ × HostWord)}
    {c : SavedContext ρ}
    {P : HostWord → Prop}
    {mem mem' : HostWord → HostWord}
    (hTable :
      ∀ e ∈ table, e.2.toNat < 4 * (1 + MachineStateSize))
    (hSaved : Saved table c P mem)
    (hAgree : ∀ a, P a → mem' a = mem a) :
    Saved table c P mem' where
  aligned := hSaved.aligned
  object := hSaved.object
  registers := fun e he => by
    rw [hAgree _ (hSaved.object _
      (inObject_add (hTable e he)))]
    exact hSaved.registers e he
  stack := fun a hOwned hStack => by
    rw [hAgree a hOwned]
    exact hSaved.stack a hOwned hStack

end Nachos

------------------------------------
-- New Threads
------------------------------------

namespace Nachos

/- A thread object, the memory for its stack and its task. -/
structure Start where
  object : HostWord
  stack : HostWord
  func : HostWord
  arg : HostWord
deriving DecidableEq, Repr

/- The entry of `machineState` that `SWITCH` finds there. -/
def machineState
    (object offset : HostWord) :
    HostWord :=
  object + 4#32 + BitVec.ofNat 32
    (4 * (offset.toNat / 4 - 1))

theorem machineState_eq
    (object : HostWord)
    {offset : HostWord}
    (hFirst : 4 ≤ offset.toNat)
    (hAligned : HostAligned offset) :
    machineState object offset = object + offset := by
  unfold HostAligned at hAligned
  have hOffset :
      4#32 + BitVec.ofNat 32 (4 * (offset.toNat / 4 - 1)) =
        offset := by
    apply BitVec.eq_of_toNat_eq
    rw [BitVec.toNat_add, BitVec.toNat_ofNat,
      BitVec.toNat_ofNat]
    have hBound := offset.isLt
    omega
  rw [machineState, BitVec.add_assoc, hOffset]

/- The words that belong to the thread. -/
def Start.cells
    (b : Start)
    (a : HostWord) :
    Bool :=
  decide (InObject b.object a ∨ InStack b.stack a)

/- The object and the stack are aligned and apart. -/
structure Launchable
    (b : Start) : Prop where
  object : HostAligned b.object
  stack : HostAligned b.stack
  apart : ∀ a, InObject b.object a → ¬ InStack b.stack a

theorem object_ne_stack
    {b : Start}
    (hLaunchable : Launchable b)
    {d a : HostWord}
    (hd : d.toNat < 4 * (1 + MachineStateSize))
    (ha : InStack b.stack a) :
    b.object + d ≠ a := by
  intro hEq
  exact hLaunchable.apart _ (inObject_add hd) (hEq ▸ ha)

theorem inStack_self
    (stack : HostWord) :
    InStack stack stack := by
  have hSelf :=
    inStack_add stack (d := 0#32) (by decide)
  rwa [BitVec.add_zero] at hSelf

end Nachos
