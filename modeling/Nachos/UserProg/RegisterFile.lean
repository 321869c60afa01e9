import Nachos.Machine.Results
import Nachos.UserProg.Isolation

/-
  The register file of a user program.

  The simulator takes the index of a delayed load from a
  register, and its switch fails on an operation that it has
  no case for.  Neither goes wrong in a run that starts with
  the registers of `InitRegisters`: register 0 is zero, and
  the pending load is one of a general register, whatever the
  memory and the translation tables hold.

  Main declarations:
    * `Machine.userRuns`
    * `Machine.RegistersIntact`
    * `Instruction.decode_handled`
    * `Machine.RegistersIntact.step`
    * `Machine.register_file_intact`
-/

------------------------------------
-- Decoding
------------------------------------

namespace Nachos

namespace Instruction

/- The operations that fall to the default of the switch. -/
def unhandledOps : List OpCode :=
  [.rfe, .special, .bcond]

/- A register field, as it is cut out of the word. -/
def field
    (value : Word)
    (shift : Nat) :
    Word :=
  value >>> shift &&& 0x1f

/- The fields of a word name registers. -/
structure FieldsNamed
    (value : Word) : Prop where
  rs : (field value 21).toInt = (reg (decode value).rs).1
  rt : (field value 16).toInt = (reg (decode value).rt).1
  rd : (field value 11).toInt = (reg (decode value).rd).1

theorem field_eq
    (value : Word)
    (shift : Nat) :
    field value shift =
      (value.extractLsb' shift 5).setWidth 32 := by
  have hLow : ∀ i < 32,
      (0x1f : Word).getLsbD i = decide (i < 5) := by
    decide
  apply BitVec.eq_of_getLsbD_eq
  intro i hi
  unfold field
  rw [BitVec.getLsbD_and, hLow i hi, BitVec.getLsbD_setWidth,
    BitVec.getLsbD_extractLsb', BitVec.getLsbD_ushiftRight]
  grind

theorem field_toInt
    (value : Word)
    (shift : Nat) :
    (field value shift).toInt =
      (reg (value.extractLsb' shift 5)).1 := by
  have hLt := (value.extractLsb' shift 5).isLt
  have hNat : (field value shift).toNat =
      (value.extractLsb' shift 5).toNat := by
    rw [field_eq value shift,
      BitVec.toNat_setWidth_of_le (by decide)]
  rw [BitVec.toInt_eq_toNat_of_lt (by omega), hNat]
  rfl

theorem fieldsNamed
    (value : Word) :
    FieldsNamed value :=
  ⟨field_toInt value 21, field_toInt value 16,
    field_toInt value 11⟩

/- Every word is decoded to an operation of the switch. -/
theorem decode_handled
    (raw : Word) :
    (decode raw).opCode ∉ unhandledOps := by
  have hSpecial : ∀ j : Fin 64,
      specialTable.getD j .res ∉ unhandledOps := by
    decide
  have hBranch :
      ∀ op ∈ [OpCode.bltz, .bgez, .bltzal, .bgezal, .unimp],
        op ∉ unhandledOps := by
    decide
  have hTable : ∀ i : Fin 64,
      (opTable.getD i (.res, .ifmt)).1 ∉
        [OpCode.special, .bcond] →
      (opTable.getD i (.res, .ifmt)).1 ∉ unhandledOps := by
    decide
  rcases decode_cases raw with
    ⟨j, hEq, _⟩ | ⟨hEq, _⟩ | ⟨i, hEq, hEntry, _⟩
  · rw [hEq]
    exact hSpecial j
  · rw [hEq]
    exact hBranch _ (decodeBcond_mem raw)
  · rw [hEq]
    exact hTable i hEntry

end Instruction

end Nachos

------------------------------------
-- Runs
------------------------------------

namespace Nachos

open Transition

/-
  Between instructions an interrupt may finish the pending
  load, and the kernel may change the memory and the tables.
-/
inductive UserEvent where
  | instruction
  | interrupt
  | remap
      (mainMemory : Nat → Bytes.Byte)
      (tlb : Option (Fin TLBSize → TranslationEntry))
      (pageTable : Option (Nat → TranslationEntry))
      (pageTableSize : Word)

namespace Machine

/-
  An instruction that raises an exception is over when the
  handler returns.
-/
def afterInstruction
    (m : Machine) :
    Option Machine :=
  match m.oneInstruction with
  | .ok m' => some m'
  | .error (.exception _ m') => some m'
  | .error .abort => none
  | .error .undefined => none

/- The runs of a user program. -/
def userRuns :
    System Machine UserEvent where
  init := fun m =>
    ∃ (space : AddrSpace) (registers : Register → Word),
      m.registers = space.initRegisters registers
  allowed := fun _ _ => True
  step := fun m event =>
    match event with
    | .instruction => m.afterInstruction
    | .interrupt => (m.delayedLoad 0 0).toOption
    | .remap mainMemory tlb pageTable pageTableSize =>
        some
          ⟨m.registers, mainMemory, tlb, pageTable,
            pageTableSize⟩

/- What holds between instructions. -/
structure RegistersIntact
    (m : Machine) : Prop where
  zero : m.registers 0 = 0
  general : (m.registers LoadReg).toNat < NumGPRegs

/-
  No index is out of the register file: the pending load can
  be finished, and an instruction has a defined result unless
  it is a division that has none.
-/
structure IndicesNamed
    (m : Machine) : Prop where
  interrupt : ∃ c, m.delayedLoad 0 0 = .ok c
  instruction :
    m.oneInstruction = .error .undefined →
      ∃ raw, m.Fetches raw ∧
        m.DivisionFaults (Instruction.decode raw)

end Machine

end Nachos

------------------------------------
-- The Register File in a Run
------------------------------------

namespace Nachos

open Outcome
open Transition

namespace Machine

variable {m n c : Machine}

theorem RegistersIntact.named
    (hIntact : m.RegistersIntact) :
    m.LoadNamed :=
  Nat.lt_trans hIntact.general (by decide)

/- The registers a program is started with. -/
theorem registersIntact_of_init
    {space : AddrSpace}
    {registers : Register → Word}
    (hRegs : m.registers = space.initRegisters registers) :
    m.RegistersIntact := by
  have hClear : ∀ r, r ∉ [PCReg, NextPCReg, StackReg] →
      m.registers r = 0 := by
    intro r hr
    simp only [List.mem_cons, List.not_mem_nil, or_false,
      not_or] at hr
    rw [hRegs, AddrSpace.initRegisters,
      Function.update_of_ne hr.2.2,
      Function.update_of_ne hr.2.1, Function.update_of_ne hr.1,
      FixedArray.foldl_update_finRange]
  refine ⟨hClear 0 (by decide), ?_⟩
  rw [hClear LoadReg (by decide)]
  decide

/- A finished load leaves the next one pending. -/
theorem registersIntact_of_delayedLoad
    (hRun : m.delayedLoad 0 0 = .ok c) :
    c.RegistersIntact := by
  rcases delayedLoad_pending hRun with ⟨hZero, hReg, _⟩
  refine ⟨hZero, ?_⟩
  rw [hReg]
  decide

/- Only a load leaves a register pending, the one it names. -/
theorem registersIntact_of_ok
    (hRun : m.oneInstruction = .ok c) :
    c.RegistersIntact := by
  rcases oneInstruction_pending hRun with
    ⟨instr, _, hZero, hLoad, hOther⟩
  refine ⟨hZero, ?_⟩
  by_cases hIsLoad : instr.IsLoad
  · rw [hLoad hIsLoad, BitVec.toNat_setWidth_of_le (by decide)]
    exact instr.rt.isLt
  · have hNone : c.registers LoadReg = 0 := by
      by_contra hNe
      exact hOther hIsLoad (Or.inl hNe)
    rw [hNone]
    decide

/- The handler finds nothing pending. -/
theorem registersIntact_of_exception
    {which : ExceptionType}
    (hRun : m.oneInstruction = .error (.exception which c)) :
    c.RegistersIntact := by
  rcases m.oneInstruction_raised.of_error hRun with
    ⟨n, badVAddr, _, hRaised⟩
  unfold raised at hRaised
  split at hRaised
  · rename_i hLoad
    cases hRaised
    exact registersIntact_of_delayedLoad hLoad
  · rename_i trap hLoad
    rw [delayedLoad_error hLoad] at hRaised
    cases hRaised

theorem RegistersIntact.step
    {event : UserEvent}
    (hIntact : m.RegistersIntact)
    (hNext : userRuns.step m event = some c) :
    c.RegistersIntact := by
  cases event with
  | instruction =>
      change m.afterInstruction = some c at hNext
      unfold afterInstruction at hNext
      split at hNext
      · rename_i hRun
        cases hNext
        exact registersIntact_of_ok hRun
      · rename_i hRun
        cases hNext
        exact registersIntact_of_exception hRun
      · cases hNext
      · cases hNext
  | interrupt =>
      change (m.delayedLoad 0 0).toOption = some c at hNext
      cases hLoad : m.delayedLoad 0 0 with
      | ok m' =>
          rw [hLoad] at hNext
          cases hNext
          exact registersIntact_of_delayedLoad hLoad
      | error trap =>
          rw [hLoad] at hNext
          cases hNext
  | remap mainMemory tlb pageTable pageTableSize =>
      cases hNext
      exact ⟨hIntact.zero, hIntact.general⟩

/- An exception finishes the pending load. -/
theorem RegistersIntact.raised
    (hIntact : m.RegistersIntact)
    (hSame : m.Untouched n)
    (which : ExceptionType)
    (badVAddr : Word) :
    n.raised which badVAddr ≠ .undefined := by
  have hNamed : n.LoadNamed := by
    rw [LoadNamed, hSame.registers LoadReg id]
    exact hIntact.named
  rcases raised_general hNamed which badVAddr with
    ⟨m', hRaised, _⟩
  rw [hRaised]
  intro hEq
  cases hEq

/- So does the end of an instruction. -/
theorem RegistersIntact.complete
    (hIntact : m.RegistersIntact)
    (hRegs : n.registers = m.registers)
    {instr : Instruction}
    {e : Executed}
    (hFollows : e.Follows n instr) :
    ∃ m', Machine.complete e = .ok m' := by
  have hSame : e.machine.registers LoadReg =
      m.registers LoadReg := by
    rw [← hRegs]
    apply hFollows.frame
    intro hMem
    exact absurd (Instruction.writes_lt hMem) (by decide)
  have hNamed : e.machine.LoadNamed := by
    rw [LoadNamed, hSame]
    exact hIntact.named
  rcases complete_general hNamed with ⟨m', hComplete, _⟩
  exact ⟨m', hComplete⟩

theorem RegistersIntact.indices
    (hIntact : m.RegistersIntact) :
    m.IndicesNamed := by
  refine ⟨exists_delayedLoad hIntact.named 0 0, ?_⟩
  intro hUndefined
  have hCovers : Trap.Covers m fun trap =>
      trap = .undefined → ∃ raw, m.Fetches raw ∧
        m.DivisionFaults (Instruction.decode raw) := by
    refine ⟨?_, ?_⟩
    · intro n which badVAddr hSame hEq
      exact absurd hEq (hIntact.raised hSame which badVAddr)
    · intro hEq
      cases hEq
  have hRead := readMem_traps hCovers (Alike.refl m)
    (m.registers PCReg) 4
  cases hFetch : m.readMem (m.registers PCReg) 4 with
  | error trap =>
      rw [oneInstruction, hFetch] at hUndefined
      cases hUndefined
      exact hRead.of_error hFetch rfl
  | ok fetched =>
      rcases fetched with ⟨raw, n⟩
      have hRegs : n.registers = m.registers :=
        (m.readMem_registers _ 4).of_ok hFetch
      have hExecute :=
        (execute_traps hCovers (hRead.of_ok hFetch)
          (Instruction.decode raw) (by
            rintro ⟨hOp, hRs, hRt⟩ _
            rw [hRegs] at hRs hRt
            exact ⟨raw, ⟨n, hFetch⟩, hOp, hRs, hRt⟩)).and
          (n.execute_follows (Instruction.decode raw))
      rw [oneInstruction, hFetch] at hUndefined
      change (n.execute (Instruction.decode raw) >>=
        Machine.complete) = .error .undefined at hUndefined
      cases hDone : n.execute (Instruction.decode raw) with
      | error trap =>
          rw [hDone] at hUndefined
          cases hUndefined
          exact (hExecute.of_error hDone).1 rfl
      | ok e =>
          rcases hIntact.complete hRegs
              (hExecute.of_ok hDone).2 with ⟨m', hComplete⟩
          rw [hDone] at hUndefined
          change Machine.complete e = _ at hUndefined
          rw [hComplete] at hUndefined
          cases hUndefined

/-
  At every boundary of a run, whatever happened before, the
  registers are intact and no index leaves the register file;
  and no word is decoded to an operation without a case.
-/
theorem register_file_intact
    (hReach : userRuns.Reachable m) :
    m.registers 0 = 0 ∧
      0 ≤ (m.registers LoadReg).toInt ∧
      (m.registers LoadReg).toInt < NumGPRegs ∧
      m.IndicesNamed ∧
      ∀ raw, Instruction.FieldsNamed raw ∧
        (Instruction.decode raw).opCode ∉
          Instruction.unhandledOps := by
  have hIntact : m.RegistersIntact := by
    apply hReach.invariant
    · rintro s ⟨space, registers, hRegs⟩
      exact registersIntact_of_init hRegs
    · intro s event t hBefore _ hNext
      exact hBefore.step hNext
  have hGeneral : (m.registers LoadReg).toNat < 32 :=
    hIntact.general
  have hInt : (m.registers LoadReg).toInt =
      (m.registers LoadReg).toNat :=
    BitVec.toInt_eq_toNat_of_lt (by omega)
  rw [hInt]
  refine ⟨hIntact.zero, Int.natCast_nonneg _,
    Int.ofNat_lt.mpr hGeneral, hIntact.indices, ?_⟩
  intro raw
  exact ⟨Instruction.fieldsNamed raw,
    Instruction.decode_handled raw⟩

/- A program of some words, just started. -/
def started
    (words : List Word) :
    Machine :=
  { holding words 0 with
    registers :=
      AddrSpace.initRegisters
        ⟨fun _ => ⟨0, 0, true, false, false, false⟩, 16⟩
        fun _ => 7 }

/- `lw r2, 4(r0)` is pending. -/
theorem register_file_intact_lw :
    ∃ m, userRuns.Reachable m ∧ m.registers LoadReg = 2 ∧
      m.registers 0 = 0 ∧ m.IndicesNamed := by
  have hStart : userRuns.Reachable (started [0x8c020004]) :=
    System.Reachable.of_init ⟨_, _, rfl⟩
  have hNext : ∃ m, userRuns.step (started [0x8c020004])
      .instruction = some m ∧ m.registers LoadReg = 2 :=
    ⟨_, rfl, rfl⟩
  rcases hNext with ⟨m, hStep, hLoad⟩
  have hReach := hStart.of_step trivial hStep
  rcases register_file_intact hReach with
    ⟨hZero, _, _, hIndices, _⟩
  exact ⟨m, hReach, hLoad, hZero, hIndices⟩

end Machine

end Nachos
