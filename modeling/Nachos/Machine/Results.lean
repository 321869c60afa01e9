import Nachos.Machine.LoadDelay

/-
  What is left by an instruction that computes a result.

  The fields of an instruction word are decoded by its format,
  and the result is in the destination once the instruction is
  done.  The other general registers change only by a load
  that was still pending.

  Main declarations:
    * `Machine.Fetches`
    * `Machine.Ready`
    * `Instruction.extra_of_shift`
    * `Machine.complete_general`
    * `Machine.computes_iff`
-/

------------------------------------
-- Fields of Instruction Words
------------------------------------

namespace Nachos

namespace Instruction

/- The lower half of the word. -/
def immediate
    (raw : Word) :
    BitVec 16 :=
  raw.extractLsb' 0 16

/- The five bits with the amount of a shift. -/
def shamt
    (raw : Word) :
    BitVec 5 :=
  raw.extractLsb' 6 5

/- Operations with an immediate that write a result. -/
def immediateOps : List OpCode :=
  [.addi, .addiu, .slti, .sltiu, .andi, .ori, .xori, .lui]

/- Shifts by an amount in the word. -/
def fixedShifts : List OpCode :=
  [.sll, .srl, .sra]

/- The register that a result is written to. -/
def destination
    (instr : Instruction) :
    BitVec 5 :=
  if instr.opCode ∈ immediateOps then instr.rt else instr.rd

/- The test for the sign of an immediate. -/
theorem immediate_negative
    (raw : Word) :
    (raw &&& 0xffff) &&& 0x8000 ≠ 0 ↔
      (immediate raw).msb = true := by
  have hBit : (0x8000 : Word) = BitVec.twoPow 32 15 := rfl
  have hLow : (0xffff : Word).getLsbD 15 = true := by
    decide
  have hMsb : (immediate raw).msb = raw.getLsbD 15 := by
    rw [immediate, BitVec.msb_eq_getLsbD_last,
      BitVec.getLsbD_extractLsb']
    rfl
  rw [hBit, BitVec.and_twoPow, BitVec.getLsbD_and, hLow,
    Bool.and_true, hMsb]
  split
  · rename_i hTop
    exact iff_of_true (by decide) hTop
  · rename_i hTop
    exact iff_of_false (fun hNe => hNe rfl) hTop

theorem decodeExtra_ifmt
    (raw : Word) :
    decodeExtra raw .ifmt = (immediate raw).signExtend 32 := by
  have hLow : ∀ i < 32,
      (0xffff : Word).getLsbD i = decide (i < 16) := by
    decide
  have hHigh : ∀ i < 32,
      (0xffff0000 : Word).getLsbD i = decide (16 ≤ i) := by
    decide
  apply BitVec.eq_of_getLsbD_eq
  intro i hi
  have hImmediate : (immediate raw).getLsbD i =
      (decide (i < 16) && raw.getLsbD i) := by
    rw [immediate, BitVec.getLsbD_extractLsb', Nat.zero_add]
  rw [BitVec.getLsbD_signExtend, hImmediate]
  dsimp only [decodeExtra]
  by_cases hTop : (immediate raw).msb = true
  · rw [if_pos ((immediate_negative raw).mpr hTop),
      BitVec.getLsbD_or, BitVec.getLsbD_and, hLow i hi,
      hHigh i hi, hTop]
    grind
  · rw [if_neg (mt (immediate_negative raw).mp hTop),
      BitVec.getLsbD_and, hLow i hi]
    grind

theorem decodeExtra_rfmt
    (raw : Word) :
    decodeExtra raw .rfmt = (shamt raw).setWidth 32 := by
  have hLow : ∀ i < 32,
      (0x1f : Word).getLsbD i = decide (i < 5) := by
    decide
  apply BitVec.eq_of_getLsbD_eq
  intro i hi
  unfold decodeExtra shamt
  rw [BitVec.getLsbD_and, hLow i hi, BitVec.getLsbD_setWidth,
    BitVec.getLsbD_extractLsb', BitVec.getLsbD_ushiftRight]
  grind

/- Where the operation and the format come from. -/
theorem decode_cases
    (raw : Word) :
    (∃ j : Fin 64,
      (decode raw).opCode = specialTable.getD j .res ∧
      (decode raw).extra = decodeExtra raw .rfmt) ∨
    ((decode raw).opCode = decodeBcond raw ∧
      (decode raw).extra = decodeExtra raw .ifmt) ∨
    ∃ i : Fin 64,
      (decode raw).opCode =
        (opTable.getD i (.res, .ifmt)).1 ∧
      (opTable.getD i (.res, .ifmt)).1 ∉
        [OpCode.special, .bcond] ∧
      (decode raw).extra =
        decodeExtra raw (opTable.getD i (.res, .ifmt)).2 := by
  have hFormat : ∀ i : Fin 64,
      ((opTable.getD i (.res, .ifmt)).1 = .special →
        (opTable.getD i (.res, .ifmt)).2 = .rfmt) ∧
      ((opTable.getD i (.res, .ifmt)).1 = .bcond →
        (opTable.getD i (.res, .ifmt)).2 = .ifmt) := by
    decide
  have hEntry := hFormat (raw.extractLsb' 26 6).toFin
  unfold decode
  dsimp only
  split
  · rename_i hSpecial
    exact Or.inl ⟨(raw.extractLsb' 0 6).toFin, rfl,
      congrArg (decodeExtra raw) (hEntry.1 hSpecial)⟩
  · rename_i hBcond
    exact Or.inr (Or.inl ⟨rfl,
      congrArg (decodeExtra raw) (hEntry.2 hBcond)⟩)
  · rename_i hSpecial hBcond
    refine Or.inr (Or.inr ⟨(raw.extractLsb' 26 6).toFin, rfl,
      ?_, rfl⟩)
    intro hMem
    rcases List.mem_pair.mp hMem with hEq | hEq
    · exact hSpecial hEq
    · exact hBcond hEq

theorem decodeBcond_mem
    (raw : Word) :
    decodeBcond raw ∈
      [OpCode.bltz, .bgez, .bltzal, .bgezal, .unimp] := by
  unfold decodeBcond
  dsimp only
  split
  · decide
  · split
    · decide
    · split
      · decide
      · split
        · decide
        · decide

/- Operations of one format, by the tables. -/
theorem extra_of_format
    {ops : List OpCode}
    {format : Format}
    {raw : Word}
    (hSpecial :
      ∀ j : Fin 64, specialTable.getD j .res ∈ ops →
        format = .rfmt)
    (hBranch :
      ∀ op ∈ [OpCode.bltz, .bgez, .bltzal, .bgezal, .unimp],
        op ∈ ops → format = .ifmt)
    (hTable :
      ∀ i : Fin 64,
        (opTable.getD i (.res, .ifmt)).1 ∈ ops →
          (opTable.getD i (.res, .ifmt)).2 = format)
    (hOp : (decode raw).opCode ∈ ops) :
    (decode raw).extra = decodeExtra raw format := by
  rcases decode_cases raw with
    ⟨j, hEq, hExtra⟩ | ⟨hEq, hExtra⟩ | ⟨i, hEq, _, hExtra⟩
  · rw [hEq] at hOp
    rw [hExtra, hSpecial j hOp]
  · rw [hEq] at hOp
    rw [hExtra, hBranch _ (decodeBcond_mem raw) hOp]
  · rw [hEq] at hOp
    rw [hExtra, hTable i hOp]

theorem extra_of_immediate
    {raw : Word}
    (hOp : (decode raw).opCode ∈ immediateOps) :
    (decode raw).extra = (immediate raw).signExtend 32 := by
  rw [← decodeExtra_ifmt]
  exact extra_of_format (by decide) (by decide) (by decide) hOp

theorem extra_of_shift
    {raw : Word}
    (hOp : (decode raw).opCode ∈ fixedShifts) :
    (decode raw).extra = (shamt raw).setWidth 32 := by
  rw [← decodeExtra_rfmt]
  exact extra_of_format (by decide) (by decide) (by decide) hOp

end Instruction

end Nachos

------------------------------------
-- Registers After an Instruction
------------------------------------

namespace Nachos

open Outcome

theorem negative_iff
    (w : Word) :
    Negative w ↔ w.msb = true := by
  have hBit : SignBit = BitVec.twoPow 32 31 := rfl
  have hMsb : w.msb = w.getLsbD 31 := rfl
  rw [Negative, hBit, BitVec.and_twoPow, ← hMsb]
  split
  · rename_i hTop
    exact iff_of_true (by decide) hTop
  · rename_i hTop
    exact iff_of_false (fun hNe => hNe rfl) hTop

namespace Machine

variable {dest : BitVec 5}
variable {num : Register}
variable {n : Machine}

/- A register once the pending load is finished. -/
def afterLoad
    (m : Machine)
    (r : Register) :
    Word :=
  if r.1 = 0 then 0
  else if r.1 = (m.registers LoadReg).toNat then
    m.registers LoadValueReg
  else m.registers r

/- The next instruction can be fetched, and it is `raw`. -/
def Fetches
    (m : Machine)
    (raw : Word) : Prop :=
  ∃ n, m.readMem (m.registers PCReg) 4 = .ok (raw, n)

/- The pending load names a register. -/
def LoadNamed
    (m : Machine) : Prop :=
  (m.registers LoadReg).toNat < NumTotalRegs

instance
    (m : Machine) :
    Decidable m.LoadNamed :=
  inferInstanceAs (Decidable (_ < _))

/- A destination that no pending load overwrites. -/
structure Ready
    (m : Machine)
    (dest : BitVec 5) : Prop where
  nonzero : dest ≠ 0
  named : m.LoadNamed
  notPending : m.registers LoadReg ≠ dest.setWidth 32

/-
  The next instruction leaves a value in its destination, and
  no other general register changes but by a pending load.
-/
def Computes
    (m : Machine)
    (dest : BitVec 5)
    (value : Word) : Prop :=
  ∃ m', m.oneInstruction = .ok m' ∧
    m'.registers (reg dest) = value ∧
    ∀ r : Register, r.1 < NumGPRegs → r ≠ reg dest →
      m'.registers r = m.afterLoad r

variable {m : Machine}
variable {raw : Word}

/- After the fetch the instruction is executed. -/
theorem oneInstruction_of_fetch
    (hFetch : m.Fetches raw) :
    ∃ n : Machine, n.registers = m.registers ∧
      m.oneInstruction =
        n.execute (Instruction.decode raw) >>= complete := by
  rcases hFetch with ⟨n, hRead⟩
  have hRegs :=
    (m.readMem_registers (m.registers PCReg) 4).of_ok hRead
  refine ⟨n, hRegs, ?_⟩
  rw [oneInstruction, hRead]
  rfl

theorem ne_of_lt_PCReg
    {r num : Register}
    (hr : r < PCReg)
    (hNum : PCReg ≤ num) :
    r ≠ num := by
  rintro rfl
  exact absurd hr (not_lt.mpr hNum)

theorem delayedLoad_general
    {c : Machine}
    {nextReg nextValue : Word}
    (hLoad : m.delayedLoad nextReg nextValue = .ok c)
    (hNamed : m.LoadNamed)
    {r : Register}
    (hr : r < PCReg) :
    c.registers r = m.afterLoad r := by
  have hValueReg : r ≠ LoadValueReg :=
    ne_of_lt_PCReg hr (by decide)
  have hReg : r ≠ LoadReg := ne_of_lt_PCReg hr (by decide)
  have hZero : r = 0 ↔ r.1 = 0 := Fin.ext_iff
  rw [delayedLoad_registers hLoad hNamed, if_neg hValueReg,
    if_neg hReg]
  simp only [hZero]
  rfl

/- What the delayed load leaves of an execution. -/
theorem complete_general
    {e : Executed}
    (hNamed : e.machine.LoadNamed) :
    ∃ m', complete e = .ok m' ∧
      ∀ r : Register, r < PCReg →
        m'.registers r = e.machine.afterLoad r := by
  rcases exists_delayedLoad hNamed e.nextLoadReg
      e.nextLoadValue with ⟨c, hLoad⟩
  refine ⟨_, by rw [complete, hLoad]; rfl, ?_⟩
  intro r hr
  rw [← delayedLoad_general hLoad hNamed hr]
  simp only [writeRegister]
  rw [Function.update_of_ne (ne_of_lt_PCReg hr (by decide)),
    Function.update_of_ne (ne_of_lt_PCReg hr (by decide)),
    Function.update_of_ne (ne_of_lt_PCReg hr (by decide))]

theorem afterLoad_writeRegister
    (hReg : LoadReg ≠ num)
    (hValue : LoadValueReg ≠ num)
    (value : Word)
    {r : Register}
    (hr : r ≠ num) :
    (m.writeRegister num value).afterLoad r =
      m.afterLoad r := by
  have hOther : ∀ s, s ≠ num →
      (m.writeRegister num value).registers s =
        m.registers s :=
    fun s hs => Function.update_of_ne hs ..
  unfold afterLoad
  rw [hOther _ hReg, hOther _ hValue, hOther _ hr]

/- A register that is written and has no load pending. -/
theorem afterLoad_writeRegister_self
    (hReg : LoadReg ≠ num)
    (hNonzero : num ≠ 0)
    (hPending : num.1 ≠ (m.registers LoadReg).toNat)
    (value : Word) :
    (m.writeRegister num value).afterLoad num = value := by
  have hSame : (m.writeRegister num value).registers LoadReg =
      m.registers LoadReg :=
    Function.update_of_ne hReg ..
  have hIndex : ¬ num.1 = 0 :=
    fun hZero => hNonzero (Fin.ext hZero)
  unfold afterLoad
  rw [hSame, if_neg hIndex, if_neg hPending]
  exact Function.update_self ..

theorem loadNamed_writeRegister
    (hReg : LoadReg ≠ num)
    (value : Word)
    (hNamed : m.LoadNamed) :
    (m.writeRegister num value).LoadNamed := by
  have hSame : (m.writeRegister num value).registers LoadReg =
      m.registers LoadReg :=
    Function.update_of_ne hReg ..
  rw [LoadNamed, hSame]
  exact hNamed

theorem loadNamed_of_registers
    (hRegs : n.registers = m.registers)
    (hNamed : m.LoadNamed) :
    n.LoadNamed := by
  rw [LoadNamed, hRegs]
  exact hNamed

theorem afterLoad_of_registers
    (hRegs : n.registers = m.registers) :
    n.afterLoad = m.afterLoad := by
  funext r
  rw [afterLoad, afterLoad, hRegs]

/- The instruction is done with a result in a register. -/
theorem complete_writeResult
    (hReady : n.Ready dest)
    (result : Word) :
    ∃ m', n.writeResult dest result >>= complete = .ok m' ∧
      m'.registers (reg dest) = result ∧
      ∀ r : Register, r.1 < NumGPRegs → r ≠ reg dest →
        m'.registers r = n.afterLoad r := by
  have hReg : LoadReg ≠ reg dest := reg_ne dest (by decide)
  have hValueReg : LoadValueReg ≠ reg dest :=
    reg_ne dest (by decide)
  rcases complete_general
      (e := ⟨n.writeRegister (reg dest) result, n.pcAfter, 0, 0⟩)
      (loadNamed_writeRegister hReg result hReady.named) with
    ⟨m', hComplete, hGeneral⟩
  refine ⟨m', hComplete, ?_, ?_⟩
  · rw [hGeneral _ (Nat.lt_trans dest.isLt (by decide))]
    apply afterLoad_writeRegister_self hReg
    · intro hZero
      have hVal : dest.toNat = 0 := congrArg Fin.val hZero
      exact hReady.nonzero (BitVec.eq_of_toNat_eq hVal)
    · intro hEq
      apply hReady.notPending
      apply BitVec.eq_of_toNat_eq
      rw [BitVec.toNat_setWidth_of_le (by decide)]
      exact hEq.symm
  · intro r hr hNe
    rw [hGeneral r (Nat.lt_trans hr (by decide))]
    exact afterLoad_writeRegister hReg hValueReg result hNe

/- The handler finds the pending load finished. -/
theorem raised_general
    (hNamed : m.LoadNamed)
    (which : ExceptionType)
    (badVAddr : Word) :
    ∃ m', m.raised which badVAddr = .exception which m' ∧
      ∀ r : Register, r < PCReg →
        m'.registers r = m.afterLoad r := by
  have hNamed' : (m.writeRegister BadVAddrReg
      badVAddr).LoadNamed :=
    loadNamed_writeRegister (by decide) badVAddr hNamed
  rcases exists_delayedLoad hNamed' 0 0 with ⟨m', hLoad⟩
  refine ⟨m', by rw [raised, hLoad], ?_⟩
  intro r hr
  rw [delayedLoad_general hLoad hNamed' hr]
  exact afterLoad_writeRegister (by decide) (by decide)
    badVAddr (ne_of_lt_PCReg hr (by decide))

/- An instruction that writes one result computes it. -/
theorem computes_iff
    {result value : Word}
    (hFetch : m.Fetches raw)
    (hReady : m.Ready dest)
    (hExecute :
      ∀ n : Machine, n.registers = m.registers →
        n.execute (Instruction.decode raw) =
          n.writeResult dest result) :
    m.Computes dest value ↔ result = value := by
  rcases oneInstruction_of_fetch hFetch with ⟨n, hRegs, hOne⟩
  rw [hExecute n hRegs] at hOne
  have hReady' : n.Ready dest := by
    refine ⟨hReady.nonzero,
      loadNamed_of_registers hRegs hReady.named, ?_⟩
    rw [hRegs]
    exact hReady.notPending
  rcases complete_writeResult hReady' result with
    ⟨m', hComplete, hResult, hOthers⟩
  rw [hComplete] at hOne
  rw [afterLoad_of_registers hRegs] at hOthers
  constructor
  · rintro ⟨m'', hRun, hValue, _⟩
    rw [hOne] at hRun
    cases hRun
    exact hResult.symm.trans hValue
  · rintro rfl
    exact ⟨m', hOne, hResult, hOthers⟩

/- It is done without a trap, whatever the destination. -/
theorem oneInstruction_of_writeResult
    {result : Word}
    (hFetch : m.Fetches raw)
    (hNamed : m.LoadNamed)
    (hExecute :
      ∀ n : Machine, n.registers = m.registers →
        n.execute (Instruction.decode raw) =
          n.writeResult dest result) :
    ∃ m', m.oneInstruction = .ok m' := by
  rcases oneInstruction_of_fetch hFetch with ⟨n, hRegs, hOne⟩
  rw [hExecute n hRegs] at hOne
  have hNamed' := loadNamed_writeRegister
    (reg_ne dest (by decide)) result
    (loadNamed_of_registers hRegs hNamed)
  rcases complete_general
      (e := ⟨n.writeRegister (reg dest) result, n.pcAfter, 0, 0⟩)
      hNamed' with ⟨m', hComplete, _⟩
  exact ⟨m', hOne.trans hComplete⟩

/- An exception of the instruction finds no result written. -/
theorem oneInstruction_of_raise
    {which : ExceptionType}
    {badVAddr : Word}
    (hFetch : m.Fetches raw)
    (hNamed : m.LoadNamed)
    (hExecute :
      ∀ n : Machine, n.registers = m.registers →
        n.execute (Instruction.decode raw) =
          n.raiseException which badVAddr) :
    ∃ m', m.oneInstruction = .error (.exception which m') ∧
      ∀ r : Register, r < PCReg →
        m'.registers r = m.afterLoad r := by
  rcases oneInstruction_of_fetch hFetch with ⟨n, hRegs, hOne⟩
  rw [hExecute n hRegs] at hOne
  rcases raised_general (loadNamed_of_registers hRegs hNamed)
      which badVAddr with ⟨m', hRaised, hGeneral⟩
  rw [afterLoad_of_registers hRegs] at hGeneral
  refine ⟨m', ?_, hGeneral⟩
  rw [hOne, raiseException, hRaised]
  rfl

/- One instruction, with values in `r1` and `r2`. -/
def withValues
    (raw first second : Word) :
    Machine :=
  ((holding [raw] 0).writeRegister (reg 1) first)
    |>.writeRegister (reg 2) second

end Machine

end Nachos
