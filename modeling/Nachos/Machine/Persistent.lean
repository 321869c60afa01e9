import Nachos.Lib.Outcome
import Nachos.Lib.Transition
import Nachos.Machine.Access
import Nachos.Machine.Precise

/-
  Properties of the memory and the tables that every
  instruction keeps.

  Instructions touch the memory and the tables only to read
  and to write through a table entry.  So a property that
  does not speak about registers is kept by all instructions,
  also by those that raise an exception, as soon as it is
  kept by marking an entry and by a store into its frame.

  Main declarations:
    * `TranslationEntry.mark`
    * `Machine.happens`
    * `Machine.translate_marks`
    * `Machine.Persistent.oneInstruction`
    * `Machine.Persistent.runs`
-/

------------------------------------
-- Marking Entries
------------------------------------

namespace Nachos

/- The entry after an access. -/
def TranslationEntry.mark
    (writing : Bool)
    (entry : TranslationEntry) :
    TranslationEntry :=
  { entry with
    use := true
    dirty := entry.dirty || writing }

namespace Machine

variable {m n : Machine}

theorem entryAt_modifyEntry_self
    (m : Machine)
    (change : TranslationEntry → TranslationEntry)
    (ref : EntryRef) :
    (m.modifyEntry change ref).entryAt ref =
      (m.entryAt ref).map change := by
  cases ref with
  | page vpn =>
      simp only [modifyEntry, entryAt, Option.map_map,
        Function.comp_def, Function.update_self]
  | tlb i =>
      simp only [modifyEntry, entryAt, Option.map_map,
        Function.comp_def, Function.update_self]

theorem entryAt_modifyEntry_of_ne
    (m : Machine)
    (change : TranslationEntry → TranslationEntry)
    {ref other : EntryRef}
    (hOther : other ≠ ref) :
    (m.modifyEntry change ref).entryAt other =
      m.entryAt other := by
  cases ref with
  | page vpn =>
      cases other with
      | page vpn' =>
          have hNe : vpn' ≠ vpn := by
            rintro rfl
            exact hOther rfl
          simp only [modifyEntry, entryAt, Option.map_map,
            Function.comp_def, Function.update_of_ne hNe]
      | tlb i => rfl
  | tlb i =>
      cases other with
      | page vpn => rfl
      | tlb i' =>
          have hNe : i' ≠ i := by
            rintro rfl
            exact hOther rfl
          simp only [modifyEntry, entryAt, Option.map_map,
            Function.comp_def, Function.update_of_ne hNe]

/- The bytes of an access lie in one frame. -/
structure InFrame
    (entry : TranslationEntry)
    (physAddr size : Nat) : Prop where
  start : entry.physicalPage.toNat * PageSize ≤ physAddr
  fits :
    physAddr + size ≤
      (entry.physicalPage.toNat + 1) * PageSize

theorem InFrame.div_eq
    {entry : TranslationEntry}
    {physAddr size a : Nat}
    (hFrame : InFrame entry physAddr size)
    (hStart : physAddr ≤ a)
    (hEnd : a < physAddr + size) :
    a / PageSize = entry.physicalPage.toNat := by
  have hLow := hFrame.start
  have hHigh := hFrame.fits
  have hSize : PageSize = 128 := rfl
  rw [hSize] at hLow hHigh ⊢
  omega

theorem access_inFrame
    {entry entry' : TranslationEntry}
    {offset size physAddr : Nat}
    {writing : Bool}
    (hInside : offset + size ≤ PageSize)
    (hAccess :
      entry.access offset size writing =
        some (.ok (physAddr, entry'))) :
    entry' = entry.mark writing ∧
      InFrame entry physAddr size ∧
      (writing = true → entry.readOnly = false) := by
  refine ⟨TranslationEntry.entry_of_access hAccess, ?_⟩
  unfold TranslationEntry.access at hAccess
  dsimp only at hAccess
  split at hAccess
  · cases hAccess
  rename_i hWritable
  split at hAccess
  · cases hAccess
  split at hAccess
  · cases hAccess
    refine ⟨⟨Nat.le_add_right _ _, ?_⟩, ?_⟩
    · rw [Nat.add_mul, Nat.one_mul, Nat.add_assoc]
      exact Nat.add_le_add_left hInside _
    · intro hWriting
      rw [hWriting, Bool.and_true] at hWritable
      exact Bool.eq_false_iff.mpr hWritable
  · cases hAccess

/- A translation that succeeds marks the entry it used. -/
theorem translate_marks
    {addr : Word}
    {size physAddr : Nat}
    {writing : Bool}
    (hSize : size = 1 ∨ size = 2 ∨ size = 4)
    (hRun :
      m.translate addr size writing =
        some (.ok (physAddr, n))) :
    ∃ ref entry, m.entryAt ref = some entry ∧
      InFrame entry physAddr size ∧
      (writing = true → entry.readOnly = false) ∧
      n = m.modifyEntry (TranslationEntry.mark writing) ref := by
  have hAligned :
      ¬ (size = 4 ∧ addr &&& 3 ≠ 0 ∨
        size = 2 ∧ addr &&& 1 ≠ 0) := by
    intro hBad
    rw [translate, if_pos hBad] at hRun
    cases hRun
  have hInside := Aligned.offset_add_le hAligned hSize
  rcases translate_cases hRun with
    ⟨table, vpn, entry, hTable, hAccess, rfl⟩ |
    ⟨tlb, i, entry, hTable, hAccess, rfl⟩
  · rcases access_inFrame hInside hAccess with
      ⟨rfl, hFrame, hWritable⟩
    refine ⟨.page vpn, table vpn, ?_, hFrame, hWritable, ?_⟩
    · rw [entryAt, hTable]
      rfl
    · rw [modifyEntry, hTable]
      rfl
  · rcases access_inFrame hInside hAccess with
      ⟨rfl, hFrame, hWritable⟩
    refine ⟨.tlb i, tlb i, ?_, hFrame, hWritable, ?_⟩
    · rw [entryAt, hTable]
      rfl
    · rw [modifyEntry, hTable]
      rfl

end Machine

end Nachos

------------------------------------
-- What Instructions Keep
------------------------------------

namespace Nachos

open Outcome

/- What holds of the machine that the handler finds. -/
def Trap.Leaves
    (P : Machine → Prop) :
    Trap → Prop
| .exception _ m => P m
| .abort => True
| .undefined => True

namespace Machine

/-
  Kept by everything that an instruction does: changes of
  registers, reads through an entry, and stores.
-/
structure Persistent
    (P : Machine → Prop) : Prop where
  registers :
    ∀ m registers, P m → P { m with registers := registers }
  use :
    ∀ m ref entry, P m → m.entryAt ref = some entry →
      P (m.modifyEntry (TranslationEntry.mark false) ref)
  store :
    ∀ m ref entry physAddr size value, P m →
      m.entryAt ref = some entry → entry.readOnly = false →
      InFrame entry physAddr size →
      P { m.modifyEntry (TranslationEntry.mark true) ref with
        mainMemory :=
          storeBytes m.mainMemory physAddr size value }

namespace Persistent

variable {P : Machine → Prop}
variable (hP : Persistent P)
variable {m : Machine}
include hP

theorem writeRegister
    (num : Register)
    (value : Word)
    (hm : P m) :
    P (m.writeRegister num value) :=
  hP.registers m _ hm

theorem delayedLoad
    (nextReg nextValue : Word)
    (hm : P m) :
    Ensures P (Trap.Leaves P)
      (m.delayedLoad nextReg nextValue) := by
  unfold Machine.delayedLoad
  split
  · exact hP.registers m _ hm
  · trivial

theorem raised
    (which : ExceptionType)
    (badVAddr : Word)
    (hm : P m) :
    Trap.Leaves P (m.raised which badVAddr) := by
  unfold Machine.raised
  have hLoad := hP.delayedLoad 0 0
    (hP.writeRegister BadVAddrReg badVAddr hm)
  split
  · rename_i m' hRun
    exact hLoad.of_ok hRun
  · rename_i trap hRun
    exact hLoad.of_error hRun

/- A translation for a read of a legal size. -/
theorem readMem
    (addr : Word)
    (size : Nat)
    (hm : P m) :
    Ensures (fun r => P r.2) (Trap.Leaves P)
      (m.readMem addr size) := by
  have hTranslate :
      Ensures
        (fun r => (size = 1 ∨ size = 2 ∨ size = 4) → P r.2)
        (Trap.Leaves P)
        (m.translateOrRaise addr size false) := by
    unfold translateOrRaise
    split
    · trivial
    · exact hP.raised _ _ hm
    · rename_i result hRun
      intro hSize
      rcases translate_marks hSize hRun with
        ⟨ref, entry, hEntry, _, _, hNew⟩
      rw [hNew]
      exact hP.use m ref entry hm hEntry
  refine hTranslate.bind ?_
  rintro ⟨physAddr, n⟩ hNext
  dsimp only
  split
  · exact hNext (Or.inl rfl)
  · exact hNext (Or.inr (Or.inl rfl))
  · exact hNext (Or.inr (Or.inr rfl))
  · trivial

/- A translation for a write is followed by the store. -/
theorem writeMem
    (addr : Word)
    (size : Nat)
    (value : Word)
    (hm : P m) :
    Ensures P (Trap.Leaves P)
      (m.writeMem addr size value) := by
  have hTranslate :
      Ensures
        (fun r => (size = 1 ∨ size = 2 ∨ size = 4) →
          P { r.2 with
            mainMemory :=
              storeBytes r.2.mainMemory r.1 size value })
        (Trap.Leaves P)
        (m.translateOrRaise addr size true) := by
    unfold translateOrRaise
    split
    · trivial
    · exact hP.raised _ _ hm
    · rename_i result hRun
      intro hSize
      have hMemory := (translate_frame hRun).2
      rcases translate_marks hSize hRun with
        ⟨ref, entry, hEntry, hFrame, hWritable, hNew⟩
      rw [hMemory, hNew]
      exact hP.store m ref entry _ size value hm hEntry
        (hWritable rfl) hFrame
  refine hTranslate.bind ?_
  rintro ⟨physAddr, n⟩ hNext
  dsimp only
  split
  · rename_i hSize
    exact hNext hSize
  · trivial

theorem load
    (addr : Word)
    (size : Nat)
    (rt : BitVec 5)
    (convert : Word → Word)
    (hm : P m) :
    Ensures (fun e => P e.machine) (Trap.Leaves P)
      (m.load addr size rt convert) :=
  (hP.readMem addr size hm).bind fun _ hRead => hRead

theorem storeWord
    (addr : Word)
    (size : Nat)
    (value : Word)
    (hm : P m) :
    Ensures (fun e => P e.machine) (Trap.Leaves P)
      (m.store addr size value) :=
  (hP.writeMem addr size value hm).bind fun _ hWrite => hWrite

theorem loadPart
    (addr : Word)
    (rt : BitVec 5)
    (merge : Word → Word → Nat → Word)
    (hm : P m) :
    Ensures (fun e => P e.machine) (Trap.Leaves P)
      (m.loadPart addr rt merge) := by
  unfold Machine.loadPart
  split
  · exact (hP.readMem addr 4 hm).bind fun _ hRead => hRead
  · trivial

theorem storePart
    (addr : Word)
    (rt : BitVec 5)
    (merge : Word → Word → Nat → Word)
    (hm : P m) :
    Ensures (fun e => P e.machine) (Trap.Leaves P)
      (m.storePart addr rt merge) := by
  unfold Machine.storePart
  split
  · refine (hP.readMem _ 4 hm).bind ?_
    intro r hRead
    exact hP.storeWord _ _ _ hRead
  · trivial

theorem execute
    (instr : Instruction)
    (hm : P m) :
    Ensures (fun e => P e.machine) (Trap.Leaves P)
      (m.execute instr) := by
  rcases instr with ⟨opCode, rs, rt, rd, extra⟩
  have hWrite :
      ∀ r value, P (m.writeRegister r value) :=
    fun r value => hP.writeRegister r value hm
  cases opCode <;> simp only [Machine.execute]
  case add | addi | sub =>
      split
      · exact hP.raised _ _ hm
      · exact hWrite _ _
  case lb | lbu => exact hP.load _ _ _ _ hm
  case lh | lhu | lw =>
      split
      · exact hP.raised _ _ hm
      · exact hP.load _ _ _ _ hm
  case lwl | lwr => exact hP.loadPart _ _ _ hm
  case sb | sh | sw => exact hP.storeWord _ _ _ hm
  case swl | swr => exact hP.storePart _ _ _ hm
  case syscall | unimp | res => exact hP.raised _ _ hm
  case rfe | special | bcond => trivial
  case div =>
      split
      · exact hP.writeRegister _ _ (hWrite _ _)
      · split
        · trivial
        · exact hP.writeRegister _ _ (hWrite _ _)
  case divu =>
      split
      · exact hP.writeRegister _ _ (hWrite _ _)
      · exact hP.writeRegister _ _ (hWrite _ _)
  case mult | multu =>
      exact hP.writeRegister _ _ (hWrite _ _)
  case beq | bgez | bgtz | blez | bltz | bne | j | jr =>
      exact hm
  -- the others write one register
  all_goals exact hWrite _ _

theorem complete
    {e : Executed}
    (he : P e.machine) :
    Ensures P (Trap.Leaves P) (Machine.complete e) := by
  refine (hP.delayedLoad _ _ he).bind ?_
  intro n hn
  exact hP.registers n _ hn

theorem oneInstruction
    (hm : P m) :
    Ensures P (Trap.Leaves P) m.oneInstruction := by
  refine (hP.readMem _ 4 hm).bind ?_
  rintro ⟨raw, n⟩ hFetch
  refine (hP.execute (Instruction.decode raw) hFetch).bind ?_
  intro e he
  exact hP.complete he

end Persistent

end Machine

end Nachos

------------------------------------
-- Runs
------------------------------------

namespace Nachos

/- An instruction, or an interrupt between instructions. -/
inductive MachineEvent where
  | instruction
  | interrupt
  deriving DecidableEq

namespace Machine

/-
  A handler that returns leaves the memory and the tables as
  it finds them.
-/
def happens
    (m : Machine) :
    MachineEvent → Option Machine
| .instruction =>
    match m.oneInstruction with
    | .ok n => some n
    | .error (.exception _ n) => some n
    | .error _ => none
| .interrupt => (m.delayedLoad 0 0).toOption

def runs
    (m : Machine)
    (events : List MachineEvent) :
    Option Machine :=
  events.foldlM happens m

theorem happens_instruction
    {m n : Machine}
    (hRun : m.happens .instruction = some n) :
    m.oneInstruction = .ok n ∨
      ∃ which, m.oneInstruction = .error (.exception which n) := by
  simp only [happens] at hRun
  split at hRun
  · rename_i hOne
    cases hRun
    exact Or.inl hOne
  · rename_i which _ hOne
    cases hRun
    exact Or.inr ⟨which, hOne⟩
  · cases hRun

namespace Persistent

variable {P : Machine → Prop}
variable (hP : Persistent P)
include hP

theorem happens
    {m n : Machine}
    {event : MachineEvent}
    (hm : P m)
    (hRun : m.happens event = some n) :
    P n := by
  cases event with
  | instruction =>
      have hOne := hP.oneInstruction hm
      rcases happens_instruction hRun with
        hRun | ⟨which, hRun⟩
      · exact hOne.of_ok hRun
      · exact hOne.of_error hRun
  | interrupt =>
      have hLoad := hP.delayedLoad 0 0 hm
      refine hLoad.of_ok ?_
      cases hEq : m.delayedLoad 0 0 with
      | ok n' =>
          simp only [Machine.happens, hEq] at hRun
          cases hRun
          rfl
      | error trap =>
          simp only [Machine.happens, hEq] at hRun
          cases hRun

/- What every event keeps, every run keeps. -/
theorem runs
    {m n : Machine}
    {events : List MachineEvent}
    (hm : P m)
    (hRun : m.runs events = some n) :
    P n :=
  Transition.foldlM_invariant
    (fun _ _ _ hm hNext => hP.happens hm hNext) hRun hm

end Persistent

end Machine

end Nachos
