import Nachos.Machine.Results

/-
  Branches and jumps.

  A transfer of control leaves the address of the delay slot
  in the program counter and its target in the next one.  The
  targets are those of the architecture, but for a jump whose
  delay slot is the last word of a segment; and the return
  address is lost when a load is pending for its register.

  Main declarations:
    * `Instruction.linkRegister`
    * `Machine.taken`
    * `Machine.execute_transfer`
    * `Machine.complete_counters`
    * `Machine.transfer_correct_iff`
-/

------------------------------------
-- The Architecture
------------------------------------

namespace Nachos

namespace Instruction

def branchOps : List OpCode :=
  [.beq, .bne, .bgtz, .blez, .bgez, .bgezal, .bltz, .bltzal]

def jumpOps : List OpCode :=
  [.j, .jal]

def registerJumps : List OpCode :=
  [.jr, .jalr]

/- The instructions that transfer control. -/
def transferOps : List OpCode :=
  branchOps ++ jumpOps ++ registerJumps

/- The register that gets the return address. -/
def linkRegister
    (instr : Instruction) :
    Option (BitVec 5) :=
  match instr.opCode with
  | .bgezal | .bltzal | .jal => some 31
  | .jalr => some instr.rd
  | _ => none

/- The target field of a jump. -/
def index
    (raw : Word) :
    BitVec 26 :=
  raw.extractLsb' 0 26

/- A target in the segment of 256 megabytes of an address. -/
def segmentTarget
    (upper raw : Word) :
    Word :=
  upper.extractLsb' 28 4 ++ index raw ++ (0 : BitVec 2)

end Instruction

open Instruction

namespace Machine

/- Is the branch taken? -/
def taken
    (m : Machine)
    (instr : Instruction) :
    Bool :=
  let rs := (m.registers (reg instr.rs)).toInt
  let rt := (m.registers (reg instr.rt)).toInt
  match instr.opCode with
  | .beq => rs = rt
  | .bne => rs ≠ rt
  | .bgtz => 0 < rs
  | .blez => rs ≤ 0
  | .bgez | .bgezal => 0 ≤ rs
  | .bltz | .bltzal => rs < 0
  | _ => true

/-
  Where control goes behind the delay slot.  The upper bits of
  the target of a jump are those of the address `upper`.
-/
def transferTarget
    (m : Machine)
    (raw upper : Word) :
    Word :=
  let pc := m.registers PCReg
  match (decode raw).opCode with
  | .j | .jal => segmentTarget upper raw
  | .jr | .jalr => m.registers (reg (decode raw).rs)
  | _ =>
      if m.taken (decode raw) then
        pc + 4 + (immediate raw).signExtend 32 * 4
      else
        pc + 8

/-
  The instruction transfers control as the architecture says,
  with the upper bits of a jump from the delay slot.
-/
def Transfers
    (m : Machine)
    (raw : Word) : Prop :=
  let pc := m.registers PCReg
  ∃ m', m.oneInstruction = .ok m' ∧
    m'.registers PCReg = pc + 4 ∧
    m'.registers NextPCReg = m.transferTarget raw (pc + 4) ∧
    ∀ r, linkRegister (decode raw) = some r →
      m'.registers (reg r) = pc + 8

/-
  The return address is found in the register: it is not the
  register that is always zero, and no other value is pending
  for it.
-/
def LinkKept
    (m : Machine)
    (r : BitVec 5) : Prop :=
  let pc := m.registers PCReg
  (r = 0 → pc + 8 = 0) ∧
    (r ≠ 0 → m.registers LoadReg = r.setWidth 32 →
      m.registers LoadValueReg = pc + 8)

end Machine

end Nachos

------------------------------------
-- Executing a Transfer
------------------------------------

namespace Nachos

open Instruction

namespace Instruction

theorem extra_of_branch
    {raw : Word}
    (hOp : (decode raw).opCode ∈ branchOps) :
    (decode raw).extra = (immediate raw).signExtend 32 := by
  rw [← decodeExtra_ifmt]
  exact extra_of_format (by decide) (by decide) (by decide) hOp

theorem extra_of_jump
    {raw : Word}
    (hOp : (decode raw).opCode ∈ jumpOps) :
    (decode raw).extra = decodeExtra raw .jfmt :=
  extra_of_format (by decide) (by decide) (by decide) hOp

/- The target of a jump as it is put together. -/
theorem jumpTarget_eq
    (upper raw : Word) :
    (upper &&& 0xf0000000) |||
        indexToAddr (decodeExtra raw .jfmt) =
      segmentTarget upper raw := by
  have hUpper : ∀ i < 32,
      (0xf0000000 : Word).getLsbD i = decide (28 ≤ i) := by
    decide
  have hIndex : ∀ i < 32,
      (0x3ffffff : Word).getLsbD i = decide (i < 26) := by
    decide
  apply BitVec.eq_of_getLsbD_eq
  intro i hi
  unfold indexToAddr decodeExtra segmentTarget index
  rw [BitVec.getLsbD_or, BitVec.getLsbD_and, hUpper i hi,
    BitVec.getLsbD_shiftLeft, BitVec.getLsbD_and,
    hIndex (i - 2) (by omega), BitVec.getLsbD_append,
    BitVec.getLsbD_append, BitVec.getLsbD_extractLsb',
    BitVec.getLsbD_extractLsb']
  grind

theorem extract_segmentTarget
    (upper raw : Word) :
    (segmentTarget upper raw).extractLsb' 28 4 =
      upper.extractLsb' 28 4 := by
  apply BitVec.eq_of_getLsbD_eq
  intro i hi
  unfold segmentTarget
  rw [BitVec.getLsbD_extractLsb', BitVec.getLsbD_append,
    BitVec.getLsbD_append]
  grind

/- Targets differ by the upper bits. -/
theorem segmentTarget_eq_iff
    (upper upper' raw : Word) :
    segmentTarget upper raw = segmentTarget upper' raw ↔
      upper.extractLsb' 28 4 = upper'.extractLsb' 28 4 := by
  constructor
  · intro hEq
    rw [← extract_segmentTarget upper raw, hEq,
      extract_segmentTarget]
  · intro hEq
    rw [segmentTarget, segmentTarget, hEq]

end Instruction

namespace Machine

variable {m n : Machine}
variable {raw : Word}

/- The machine with the return address in its register. -/
def linked
    (m : Machine)
    (instr : Instruction) :
    Machine :=
  match linkRegister instr with
  | some r => m.link r
  | none => m

theorem negative_iff_toInt
    (w : Word) :
    Negative w ↔ w.toInt < 0 := by
  rw [negative_iff, BitVec.msb_eq_toInt, decide_eq_true_iff]

/- A branch goes on or goes to its offset. -/
theorem transferTarget_of_branch
    (hOp : (decode raw).opCode ∈ branchOps)
    (upper : Word) :
    m.transferTarget raw upper =
      if m.taken (decode raw) then
        m.registers PCReg + 4 +
          (immediate raw).signExtend 32 * 4
      else
        m.registers PCReg + 8 := by
  have hNot :
      (decode raw).opCode ∉ jumpOps ++ registerJumps := by
    revert hOp
    generalize (decode raw).opCode = op
    cases op <;> decide
  unfold transferTarget
  split
  case h_5 => rfl
  all_goals
    rename_i hEq
    rw [hEq] at hNot
    exact absurd (by decide) hNot

/- A branch, by the test that is made for it. -/
theorem branchTo_eq
    (hOp : (decode raw).opCode ∈ branchOps)
    (hNext : n.registers NextPCReg = m.registers PCReg + 4)
    (condition : Prop)
    [Decidable condition]
    (hTaken : condition ↔ m.taken (decode raw) = true)
    (upper : Word) :
    n.branchTo (n.branchTarget (decode raw).extra) condition =
      .ok ⟨n, m.transferTarget raw upper, 0, 0⟩ := by
  have hShift : ∀ x : Word, x <<< 2 = x * 4 := by
    intro x
    exact BitVec.shiftLeft_eq_mul_twoPow x 2
  rw [transferTarget_of_branch hOp, branchTo, branchTarget,
    pcAfter, hNext, indexToAddr, extra_of_branch hOp, hShift,
    BitVec.add_assoc (m.registers PCReg) 4 4]
  simp only [hTaken]
  rfl

theorem link_registers
    (m : Machine)
    {r : BitVec 5}
    {num : Register}
    (hNe : num ≠ reg r) :
    (m.link r).registers num = m.registers num :=
  Function.update_of_ne hNe ..

/- What is read behind the link is what was there before. -/
theorem link_source
    {r : BitVec 5}
    (hLink : linkRegister (decode raw) = some r)
    (hSource :
      linkRegister (decode raw) ≠ some (decode raw).rs)
    (hRegs : n.registers = m.registers) :
    (n.link r).registers (reg (decode raw).rs) =
      m.registers (reg (decode raw).rs) := by
  rw [link_registers, hRegs]
  intro hEq
  have hVal : (decode raw).rs.toNat = r.toNat :=
    congrArg (fun num : Register => num.1) hEq
  apply hSource
  rw [hLink, BitVec.eq_of_toNat_eq hVal]

theorem execute_branch
    (hOp : (decode raw).opCode ∈ branchOps)
    (hNext : m.registers NextPCReg = m.registers PCReg + 4)
    (hSource :
      linkRegister (decode raw) ≠ some (decode raw).rs)
    (hRegs : n.registers = m.registers)
    (upper : Word) :
    n.execute (decode raw) =
      .ok ⟨n.linked (decode raw),
        m.transferTarget raw upper, 0, 0⟩ := by
  have hPlain : n.registers NextPCReg =
      m.registers PCReg + 4 := by
    rw [hRegs, hNext]
  have hLinked : (n.link 31).registers NextPCReg =
      m.registers PCReg + 4 :=
    (n.link_registers (reg_ne 31 (by decide))).trans hPlain
  have hCases := hOp
  simp only [branchOps, List.mem_cons, List.not_mem_nil,
    or_false] at hCases
  rcases hCases with hEq | hEq | hEq | hEq | hEq | hEq | hEq |
    hEq
  · simp only [execute, linked, linkRegister, hEq, hRegs]
    apply branchTo_eq hOp hPlain
    simp only [taken, hEq, decide_eq_true_eq, BitVec.toInt_inj]
  · simp only [execute, linked, linkRegister, hEq, hRegs]
    apply branchTo_eq hOp hPlain
    simp only [taken, hEq, decide_eq_true_eq, ne_eq,
      BitVec.toInt_inj]
  · simp only [execute, linked, linkRegister, hEq, hRegs]
    apply branchTo_eq hOp hPlain
    simp only [taken, hEq, decide_eq_true_eq]
  · simp only [execute, linked, linkRegister, hEq, hRegs]
    apply branchTo_eq hOp hPlain
    simp only [taken, hEq, decide_eq_true_eq]
  · simp only [execute, linked, linkRegister, hEq, hRegs]
    apply branchTo_eq hOp hPlain
    simp only [taken, hEq, decide_eq_true_eq,
      negative_iff_toInt, Int.not_lt]
  · have hRead := link_source (r := 31)
      (by simp only [linkRegister, hEq]) hSource hRegs
    simp only [execute, linked, linkRegister, hEq, hRead]
    apply branchTo_eq hOp hLinked
    simp only [taken, hEq, decide_eq_true_eq,
      negative_iff_toInt, Int.not_lt]
  · simp only [execute, linked, linkRegister, hEq, hRegs]
    apply branchTo_eq hOp hPlain
    simp only [taken, hEq, decide_eq_true_eq,
      negative_iff_toInt]
  · have hRead := link_source (r := 31)
      (by simp only [linkRegister, hEq]) hSource hRegs
    simp only [execute, linked, linkRegister, hEq, hRead]
    apply branchTo_eq hOp hLinked
    simp only [taken, hEq, decide_eq_true_eq,
      negative_iff_toInt]

/-
  The simulator takes the upper bits of a jump from the word
  behind the delay slot.
-/
theorem execute_transfer
    (hOp : (decode raw).opCode ∈ transferOps)
    (hNext : m.registers NextPCReg = m.registers PCReg + 4)
    (hSource :
      (decode raw).opCode ≠ .jal →
        linkRegister (decode raw) ≠ some (decode raw).rs)
    (hRegs : n.registers = m.registers) :
    n.execute (decode raw) =
      .ok ⟨n.linked (decode raw),
        m.transferTarget raw (m.registers PCReg + 8), 0, 0⟩ := by
  have hAfter : n.pcAfter = m.registers PCReg + 8 := by
    rw [pcAfter, hRegs, hNext, BitVec.add_assoc]
    rfl
  have hCases := hOp
  simp only [transferOps, jumpOps, registerJumps,
    List.mem_append, List.mem_cons, List.not_mem_nil,
    or_false] at hCases
  rcases hCases with (hBranch | hEq | hEq) | hEq | hEq
  · apply execute_branch hBranch hNext _ hRegs
    apply hSource
    intro hJal
    rw [hJal] at hBranch
    exact absurd hBranch (by decide)
  · have hExtra : (decode raw).extra =
        decodeExtra raw .jfmt :=
      extra_of_jump (by rw [hEq]; decide)
    simp only [execute, linked, linkRegister, transferTarget,
      hEq, hExtra, branchTo, hAfter, jumpTarget_eq, if_true]
  · have hExtra : (decode raw).extra =
        decodeExtra raw .jfmt :=
      extra_of_jump (by rw [hEq]; decide)
    simp only [execute, linked, linkRegister, transferTarget,
      hEq, hExtra, branchTo, hAfter, jumpTarget_eq, if_true]
  · simp only [execute, linked, linkRegister, transferTarget,
      hEq, hRegs, branchTo, if_true]
  · have hRead := link_source (r := (decode raw).rd)
      (by simp only [linkRegister, hEq])
      (hSource (by rw [hEq]; decide)) hRegs
    simp only [execute, linked, linkRegister, transferTarget,
      hEq, hRead, branchTo, if_true]

end Machine

end Nachos

------------------------------------
-- Registers After a Transfer
------------------------------------

namespace Nachos

open Instruction

namespace Machine

variable {m n : Machine}
variable {raw : Word}

/-
  The program counters move on, whatever load was pending for
  a general register.
-/
theorem complete_counters
    {e : Executed}
    {m' : Machine}
    (hLoad :
      (e.machine.registers LoadReg).toNat < NumGPRegs)
    (hComplete : complete e = .ok m') :
    m'.registers PCReg = e.machine.registers NextPCReg ∧
      m'.registers NextPCReg = e.pcAfter := by
  have hNamed : e.machine.LoadNamed :=
    Nat.lt_trans hLoad (by decide)
  have hFar : NextPCReg.1 ≠
      (e.machine.registers LoadReg).toNat :=
    fun hEq => absurd hLoad (hEq ▸ by decide)
  rcases exists_delayedLoad hNamed e.nextLoadReg
      e.nextLoadValue with ⟨c, hDelayed⟩
  have hCounter : c.registers NextPCReg =
      e.machine.registers NextPCReg := by
    rw [delayedLoad_registers hDelayed hNamed,
      if_neg (by decide), if_neg (by decide),
      if_neg (by decide), if_neg hFar]
  rw [complete, hDelayed] at hComplete
  cases hComplete
  exact ⟨hCounter, rfl⟩

theorem linked_registers
    {num : Register}
    (hNum : NumGPRegs ≤ num.1)
    (instr : Instruction) :
    (n.linked instr).registers num = n.registers num := by
  unfold linked
  split
  · exact n.link_registers (reg_ne _ hNum)
  · rfl

/- The return address when the pending load is finished. -/
theorem afterLoad_link_iff
    (hRegs : n.registers = m.registers)
    (hNext : m.registers NextPCReg = m.registers PCReg + 4)
    (r : BitVec 5) :
    (n.link r).afterLoad (reg r) = m.registers PCReg + 8 ↔
      m.LinkKept r := by
  have hLink : (n.link r).registers (reg r) =
      m.registers PCReg + 8 := by
    rw [link, hRegs, hNext, BitVec.add_assoc]
    exact Function.update_self ..
  have hReg : (n.link r).registers LoadReg =
      m.registers LoadReg := by
    rw [link_registers _ (reg_ne r (by decide)), hRegs]
  have hValue : (n.link r).registers LoadValueReg =
      m.registers LoadValueReg := by
    rw [link_registers _ (reg_ne r (by decide)), hRegs]
  have hZero : (reg r).1 = 0 ↔ r = 0 := by
    rw [BitVec.toNat_eq]
    rfl
  have hPending : (reg r).1 = (m.registers LoadReg).toNat ↔
      m.registers LoadReg = r.setWidth 32 := by
    rw [BitVec.toNat_eq,
      BitVec.toNat_setWidth_of_le (by decide)]
    exact eq_comm
  rw [afterLoad, hLink, hReg, hValue]
  simp only [hZero, hPending, LinkKept]
  by_cases hNull : r = 0
  · simp only [hNull, if_true, not_true, ne_eq,
      false_implies, true_implies, and_true]
    exact eq_comm
  · by_cases hSame : m.registers LoadReg = r.setWidth 32
    · simp only [hNull, hSame, if_true, if_false, ne_eq,
        not_false_iff, false_implies, true_implies, true_and]
    · simp only [hNull, hSame, if_false, false_implies,
        implies_true, true_and]

/-
  The targets with the upper bits of two addresses are the
  same, unless a jump takes other bits from them.
-/
theorem transferTarget_eq_iff
    (upper upper' : Word) :
    m.transferTarget raw upper = m.transferTarget raw upper' ↔
      ((decode raw).opCode ∈ jumpOps →
        upper.extractLsb' 28 4 = upper'.extractLsb' 28 4) := by
  by_cases hJump : (decode raw).opCode ∈ jumpOps
  · have hTarget : ∀ w,
        m.transferTarget raw w = segmentTarget w raw := by
      intro w
      simp only [jumpOps, List.mem_cons, List.not_mem_nil,
        or_false] at hJump
      rcases hJump with hEq | hEq
      · simp only [transferTarget, hEq]
      · simp only [transferTarget, hEq]
    rw [hTarget, hTarget, segmentTarget_eq_iff]
    exact ⟨fun hEq _ => hEq, fun hEq => hEq hJump⟩
  · refine iff_of_true ?_ (fun hMem => absurd hMem hJump)
    unfold transferTarget
    split
    · rename_i hEq
      rw [hEq] at hJump
      exact absurd (by decide) hJump
    · rename_i hEq
      rw [hEq] at hJump
      exact absurd (by decide) hJump
    · rfl
    · rfl
    · rfl

/-
  A transfer of control is that of the architecture, unless it
  is a jump whose delay slot is the last word of a segment or
  the return address is lost.
-/
theorem transfer_correct_iff
    (hFetch : m.Fetches raw)
    (hOp : (decode raw).opCode ∈ transferOps)
    (hNext : m.registers NextPCReg = m.registers PCReg + 4)
    (hLoad : (m.registers LoadReg).toNat < NumGPRegs)
    (hSource :
      (decode raw).opCode ≠ .jal →
        linkRegister (decode raw) ≠ some (decode raw).rs) :
    m.Transfers raw ↔
      ((decode raw).opCode ∈ jumpOps →
        (m.registers PCReg + 8).extractLsb' 28 4 =
          (m.registers PCReg + 4).extractLsb' 28 4) ∧
      ∀ r, linkRegister (decode raw) = some r →
        m.LinkKept r := by
  rcases oneInstruction_of_fetch hFetch with ⟨n, hRegs, hOne⟩
  rw [execute_transfer hOp hNext hSource hRegs] at hOne
  have hSame : ∀ num : Register, NumGPRegs ≤ num.1 →
      (n.linked (decode raw)).registers num =
        m.registers num := by
    intro num hNum
    rw [linked_registers hNum, hRegs]
  have hGeneral : ((n.linked (decode raw)).registers
      LoadReg).toNat < NumGPRegs := by
    rw [hSame LoadReg (by decide)]
    exact hLoad
  rcases complete_general
      (e := ⟨n.linked (decode raw),
        m.transferTarget raw (m.registers PCReg + 8), 0, 0⟩)
      (Nat.lt_trans hGeneral (by decide)) with
    ⟨m', hComplete, hRegisters⟩
  rcases complete_counters hGeneral hComplete with ⟨hPC, hAfter⟩
  rw [hSame NextPCReg (by decide), hNext] at hPC
  have hLinked : ∀ r, linkRegister (decode raw) = some r →
      (m'.registers (reg r) = m.registers PCReg + 8 ↔
        m.LinkKept r) := by
    intro r hr
    rw [hRegisters _ (Nat.lt_trans r.isLt (by decide)),
      ← afterLoad_link_iff hRegs hNext]
    simp only [linked, hr]
  rw [← transferTarget_eq_iff (m := m)]
  constructor
  · rintro ⟨m'', hRun, _, hTarget, hLinks⟩
    rw [hOne.trans hComplete] at hRun
    cases hRun
    refine ⟨hAfter.symm.trans hTarget, ?_⟩
    intro r hr
    exact (hLinked r hr).mp (hLinks r hr)
  · rintro ⟨hTarget, hKept⟩
    refine ⟨m', hOne.trans hComplete, hPC,
      hAfter.trans hTarget, ?_⟩
    intro r hr
    exact (hLinked r hr).mpr (hKept r hr)

/- `bgezal r0, 1` is taken and links. -/
theorem transfer_correct_bgezal :
    (holding [0x04110001] 0).Transfers 0x04110001 := by
  have hFetch : (holding [0x04110001] 0).Fetches 0x04110001 :=
    ⟨_, rfl⟩
  apply (transfer_correct_iff hFetch (by decide) (by decide)
    (by decide) (by decide)).mpr
  refine ⟨by decide, ?_⟩
  intro r hr
  cases hr
  exact ⟨by decide, by decide⟩

/- One instruction everywhere in the page of an address. -/
def executingAt
    (pc raw : Word) :
    Machine where
  registers := fun r =>
    if r = PCReg then pc
    else if r = NextPCReg then pc + 4
    else 0
  mainMemory := fun a => Bytes.wordByte raw (a % 4)
  tlb := some fun _ =>
    ⟨BitVec.ofNat 32 (pc.toNat / PageSize), 0, true, false,
      false, false⟩
  pageTable := none
  pageTableSize := 0

/- A machine with a load pending for `r31`. -/
def loadingReturn
    (raw value : Word) :
    Machine :=
  ((holding [raw] 0).writeRegister LoadReg 31)
    |>.writeRegister LoadValueReg value

/-
  `j 0` with its delay slot in the last word of a segment goes
  to the next segment, and `jal 0` behind a load of `r31`
  loses the return address.
-/
theorem transfer_faults :
    ((executingAt 0x0ffffff8 0x08000000).Fetches 0x08000000 ∧
      (decode 0x08000000).opCode = .j ∧
      (∃ m', (executingAt 0x0ffffff8 0x08000000).oneInstruction =
          .ok m' ∧
        m'.registers NextPCReg = 0x10000000) ∧
      ¬ (executingAt 0x0ffffff8 0x08000000).Transfers
        0x08000000) ∧
    ((loadingReturn 0x0c000000 5).Fetches 0x0c000000 ∧
      (decode 0x0c000000).opCode = .jal ∧
      (∃ m', (loadingReturn 0x0c000000 5).oneInstruction =
          .ok m' ∧
        m'.registers (reg 31) = 5) ∧
      ¬ (loadingReturn 0x0c000000 5).Transfers 0x0c000000) := by
  have hJump : ∃ m',
      (executingAt 0x0ffffff8 0x08000000).oneInstruction =
        .ok m' ∧
      m'.registers NextPCReg = 0x10000000 :=
    ⟨_, rfl, rfl⟩
  have hLink : ∃ m',
      (loadingReturn 0x0c000000 5).oneInstruction = .ok m' ∧
      m'.registers (reg 31) = 5 :=
    ⟨_, rfl, rfl⟩
  refine ⟨⟨⟨_, rfl⟩, by decide, hJump, ?_⟩,
    ⟨⟨_, rfl⟩, by decide, hLink, ?_⟩⟩
  · rintro ⟨m', hOk, _, hTarget, _⟩
    rcases hJump with ⟨m'', hRun, hNext⟩
    rw [hRun] at hOk
    cases hOk
    rw [hNext] at hTarget
    exact absurd hTarget (by decide)
  · rintro ⟨m', hOk, _, _, hLinked⟩
    rcases hLink with ⟨m'', hRun, hReturn⟩
    rw [hRun] at hOk
    cases hOk
    have hSaved := hLinked 31 (by decide)
    rw [hReturn] at hSaved
    exact absurd hSaved (by decide)

end Machine

end Nachos
