import Mathlib.Algebra.Ring.Int.Defs
import Nachos.Machine.Results

/-
  Sums, differences, comparisons and divisions.

  The tests for overflow look at sign bits; they find just the
  results that do not fit into a word.  Divisions satisfy the
  law of quotient and remainder, and the only one that is not
  guarded is that of the least number by -1.

  Main declarations:
    * `Machine.exactResult`
    * `Machine.less`
    * `Machine.execute_trapping`
    * `Machine.arithmetic_exact`
    * `Machine.division_correct_iff`
-/

------------------------------------
-- Overflow
------------------------------------

namespace Nachos

/- The numbers that a word can hold. -/
def FitsWord
    (z : Int) : Prop :=
  -2 ^ 31 ≤ z ∧ z < 2 ^ 31

instance
    (z : Int) :
    Decidable (FitsWord z) :=
  inferInstanceAs (Decidable (_ ∧ _))

theorem saddOverflow_iff
    (x y : Word) :
    x.saddOverflow y = true ↔ ¬ FitsWord (x.toInt + y.toInt) := by
  simp only [BitVec.saddOverflow, FitsWord, Bool.or_eq_true,
    decide_eq_true_eq, Nat.reduceSub]
  omega

theorem ssubOverflow_iff
    (x y : Word) :
    x.ssubOverflow y = true ↔ ¬ FitsWord (x.toInt - y.toInt) := by
  simp only [BitVec.ssubOverflow, FitsWord, Bool.or_eq_true,
    decide_eq_true_eq, Nat.reduceSub]
  omega

/- The test of `ADD`. -/
theorem add_overflows_iff
    (x y : Word) :
    ¬ Negative (x ^^^ y) ∧ Negative (x ^^^ (x + y)) ↔
      ¬ FitsWord (x.toInt + y.toInt) := by
  rw [← saddOverflow_iff, BitVec.saddOverflow_eq, negative_iff,
    negative_iff, BitVec.msb_xor, BitVec.msb_xor]
  cases x.msb <;> cases y.msb <;> cases (x + y).msb <;> decide

/- `ADDI` compares the result with its other operand. -/
theorem addi_overflows_iff
    (x y : Word) :
    ¬ Negative (x ^^^ y) ∧ Negative (y ^^^ (x + y)) ↔
      ¬ FitsWord (x.toInt + y.toInt) := by
  rw [← saddOverflow_iff, BitVec.saddOverflow_eq, negative_iff,
    negative_iff, BitVec.msb_xor, BitVec.msb_xor]
  cases x.msb <;> cases y.msb <;> cases (x + y).msb <;> decide

/- The test of `SUB`. -/
theorem sub_overflows_iff
    (x y : Word) :
    Negative (x ^^^ y) ∧ Negative (x ^^^ (x - y)) ↔
      ¬ FitsWord (x.toInt - y.toInt) := by
  rw [← ssubOverflow_iff, BitVec.ssubOverflow_eq, negative_iff,
    negative_iff, BitVec.msb_xor, BitVec.msb_xor]
  cases x.msb <;> cases y.msb <;> cases (x - y).msb <;> decide

theorem add_eq_ofInt
    (x y : Word) :
    x + y = BitVec.ofInt 32 (x.toInt + y.toInt) := by
  rw [BitVec.ofInt_add, BitVec.ofInt_toInt, BitVec.ofInt_toInt]

theorem sub_eq_ofInt
    (x y : Word) :
    x - y = BitVec.ofInt 32 (x.toInt - y.toInt) := by
  rw [Int.sub_eq_add_neg, BitVec.ofInt_add, BitVec.ofInt_neg,
    BitVec.ofInt_toInt, BitVec.ofInt_toInt,
    BitVec.sub_eq_add_neg]

end Nachos

------------------------------------
-- Sums, Differences and Comparisons
------------------------------------

namespace Nachos

namespace Machine

open Instruction

variable {n : Machine}

/- Operations that trap if the result does not fit. -/
def trappingOps : List OpCode :=
  [.add, .addi, .sub]

/- Operations that never trap. -/
def wrappingOps : List OpCode :=
  [.addu, .addiu, .subu]

def comparingOps : List OpCode :=
  [.slt, .slti, .sltu, .sltiu]

/- `rt`, or the immediate with its sign extended. -/
def secondOperand
    (m : Machine)
    (raw : Word) :
    Word :=
  if (decode raw).opCode ∈ immediateOps then
    (immediate raw).signExtend 32
  else
    m.registers (reg (decode raw).rt)

/- The sum or the difference of the operands as integers. -/
def exactResult
    (m : Machine)
    (raw : Word) :
    Int :=
  if (decode raw).opCode ∈ [OpCode.sub, .subu] then
    (m.registers (reg (decode raw).rs)).toInt -
      (m.secondOperand raw).toInt
  else
    (m.registers (reg (decode raw).rs)).toInt +
      (m.secondOperand raw).toInt

/- Is the first operand less, as signed or unsigned words? -/
def less
    (m : Machine)
    (raw : Word) :
    Bool :=
  if (decode raw).opCode ∈ [OpCode.slt, .slti] then
    decide ((m.registers (reg (decode raw).rs)).toInt <
      (m.secondOperand raw).toInt)
  else
    decide ((m.registers (reg (decode raw).rs)).toNat <
      (m.secondOperand raw).toNat)

variable {m : Machine}
variable {raw : Word}

/- Operations with two registers. -/
theorem operands_register
    (hOp : (decode raw).opCode ∉ immediateOps) :
    m.secondOperand raw = m.registers (reg (decode raw).rt) ∧
      destination (decode raw) = (decode raw).rd := by
  rw [secondOperand, destination, if_neg hOp, if_neg hOp]
  exact ⟨rfl, rfl⟩

/- Operations with an immediate. -/
theorem operands_immediate
    (hOp : (decode raw).opCode ∈ immediateOps) :
    m.secondOperand raw = (decode raw).extra ∧
      destination (decode raw) = (decode raw).rt := by
  rw [secondOperand, destination, if_pos hOp, if_pos hOp,
    extra_of_immediate hOp]
  exact ⟨rfl, rfl⟩

theorem exactResult_sum
    (hOp : (decode raw).opCode ∉ [OpCode.sub, .subu]) :
    m.exactResult raw =
      (m.registers (reg (decode raw).rs)).toInt +
        (m.secondOperand raw).toInt := by
  rw [exactResult, if_neg hOp]

theorem exactResult_difference
    (hOp : (decode raw).opCode ∈ [OpCode.sub, .subu]) :
    m.exactResult raw =
      (m.registers (reg (decode raw).rs)).toInt -
        (m.secondOperand raw).toInt := by
  rw [exactResult, if_pos hOp]

/- The result is written, or the handler is entered. -/
theorem execute_trapping
    (hOp : (decode raw).opCode ∈ trappingOps)
    (hRegs : n.registers = m.registers) :
    n.execute (decode raw) =
      if FitsWord (m.exactResult raw) then
        n.writeResult (destination (decode raw))
          (BitVec.ofInt 32 (m.exactResult raw))
      else
        n.raiseException .overflow 0 := by
  simp only [trappingOps, List.mem_cons, List.not_mem_nil,
    or_false] at hOp
  rcases hOp with hEq | hEq | hEq
  · rcases operands_register (m := m) (by rw [hEq]; decide) with
      ⟨hSecond, hDest⟩
    rw [exactResult_sum (by rw [hEq]; decide), hSecond, hDest,
      ← add_eq_ofInt]
    simp only [execute, hEq, hRegs, add_overflows_iff, ite_not]
  · rcases operands_immediate (m := m) (by rw [hEq]; decide) with
      ⟨hSecond, hDest⟩
    rw [exactResult_sum (by rw [hEq]; decide), hSecond, hDest,
      ← add_eq_ofInt]
    simp only [execute, hEq, hRegs, addi_overflows_iff, ite_not]
  · rcases operands_register (m := m) (by rw [hEq]; decide) with
      ⟨hSecond, hDest⟩
    rw [exactResult_difference (by rw [hEq]; decide), hSecond,
      hDest, ← sub_eq_ofInt]
    simp only [execute, hEq, hRegs, sub_overflows_iff, ite_not]

theorem execute_wrapping
    (hOp : (decode raw).opCode ∈ wrappingOps)
    (hRegs : n.registers = m.registers) :
    n.execute (decode raw) =
      n.writeResult (destination (decode raw))
        (BitVec.ofInt 32 (m.exactResult raw)) := by
  simp only [wrappingOps, List.mem_cons, List.not_mem_nil,
    or_false] at hOp
  rcases hOp with hEq | hEq | hEq
  · rcases operands_register (m := m) (by rw [hEq]; decide) with
      ⟨hSecond, hDest⟩
    rw [exactResult_sum (by rw [hEq]; decide), hSecond, hDest,
      ← add_eq_ofInt]
    simp only [execute, hEq, hRegs]
  · rcases operands_immediate (m := m) (by rw [hEq]; decide) with
      ⟨hSecond, hDest⟩
    rw [exactResult_sum (by rw [hEq]; decide), hSecond, hDest,
      ← add_eq_ofInt]
    simp only [execute, hEq, hRegs]
  · rcases operands_register (m := m) (by rw [hEq]; decide) with
      ⟨hSecond, hDest⟩
    rw [exactResult_difference (by rw [hEq]; decide), hSecond,
      hDest, ← sub_eq_ofInt]
    simp only [execute, hEq, hRegs]

theorem less_signed
    (hOp : (decode raw).opCode ∈ [OpCode.slt, .slti]) :
    m.less raw =
      decide ((m.registers (reg (decode raw).rs)).toInt <
        (m.secondOperand raw).toInt) := by
  rw [less, if_pos hOp]

theorem less_unsigned
    (hOp : (decode raw).opCode ∉ [OpCode.slt, .slti]) :
    m.less raw =
      decide ((m.registers (reg (decode raw).rs)).toNat <
        (m.secondOperand raw).toNat) := by
  rw [less, if_neg hOp]

theorem execute_comparing
    (hOp : (decode raw).opCode ∈ comparingOps)
    (hRegs : n.registers = m.registers) :
    n.execute (decode raw) =
      n.writeResult (destination (decode raw))
        (if m.less raw then 1 else 0) := by
  simp only [comparingOps, List.mem_cons, List.not_mem_nil,
    or_false] at hOp
  rcases hOp with hEq | hEq | hEq | hEq
  · rcases operands_register (m := m) (by rw [hEq]; decide) with
      ⟨hSecond, hDest⟩
    rw [less_signed (by rw [hEq]; decide), hSecond, hDest]
    simp only [execute, hEq, hRegs, flag, decide_eq_true_eq]
  · rcases operands_immediate (m := m) (by rw [hEq]; decide) with
      ⟨hSecond, hDest⟩
    rw [less_signed (by rw [hEq]; decide), hSecond, hDest]
    simp only [execute, hEq, hRegs, flag, decide_eq_true_eq]
  · rcases operands_register (m := m) (by rw [hEq]; decide) with
      ⟨hSecond, hDest⟩
    rw [less_unsigned (by rw [hEq]; decide), hSecond, hDest]
    simp only [execute, hEq, hRegs, flag, decide_eq_true_eq]
  · rcases operands_immediate (m := m) (by rw [hEq]; decide) with
      ⟨hSecond, hDest⟩
    rw [less_unsigned (by rw [hEq]; decide), hSecond, hDest]
    simp only [execute, hEq, hRegs, flag, decide_eq_true_eq]

/- The next instruction ends with an overflow. -/
def Overflows
    (m : Machine) : Prop :=
  ∃ m', m.oneInstruction = .error (.exception .overflow m')

/-
  The instruction `raw` traps only on an overflow, without
  writing a register, and otherwise has an exact result.
-/
structure ExactArithmetic
    (m : Machine)
    (raw : Word) : Prop where
  overflow :
    (decode raw).opCode ∈ trappingOps →
      (m.Overflows ↔ ¬ FitsWord (m.exactResult raw))
  unwritten :
    (decode raw).opCode ∈ trappingOps →
      ∀ m', m.oneInstruction =
          .error (.exception .overflow m') →
        ∀ r : Register, r.1 < NumGPRegs →
          m'.registers r = m.afterLoad r
  noTrap :
    (decode raw).opCode ∈ wrappingOps ++ comparingOps →
      ∃ m', m.oneInstruction = .ok m'
  trapping :
    (decode raw).opCode ∈ trappingOps →
      m.Ready (destination (decode raw)) →
      FitsWord (m.exactResult raw) →
        ∃ value : Word, value.toInt = m.exactResult raw ∧
          m.Computes (destination (decode raw)) value
  wrapping :
    (decode raw).opCode ∈ wrappingOps →
      m.Ready (destination (decode raw)) →
        m.Computes (destination (decode raw))
          (BitVec.ofInt 32 (m.exactResult raw))
  comparing :
    (decode raw).opCode ∈ comparingOps →
      m.Ready (destination (decode raw)) →
        m.Computes (destination (decode raw))
          (if m.less raw then 1 else 0)

/- What a trapping operation does with a result that fits. -/
theorem execute_of_fits
    (hOp : (decode raw).opCode ∈ trappingOps)
    (hFits : FitsWord (m.exactResult raw))
    (n : Machine)
    (hRegs : n.registers = m.registers) :
    n.execute (decode raw) =
      n.writeResult (destination (decode raw))
        (BitVec.ofInt 32 (m.exactResult raw)) := by
  rw [execute_trapping hOp hRegs, if_pos hFits]

theorem oneInstruction_overflow
    (hFetch : m.Fetches raw)
    (hNamed : m.LoadNamed)
    (hOp : (decode raw).opCode ∈ trappingOps)
    (hNot : ¬ FitsWord (m.exactResult raw)) :
    ∃ m', m.oneInstruction =
        .error (.exception .overflow m') ∧
      ∀ r : Register, r < PCReg →
        m'.registers r = m.afterLoad r := by
  apply oneInstruction_of_raise hFetch hNamed
  intro n hRegs
  rw [execute_trapping hOp hRegs, if_neg hNot]

theorem overflows_iff
    (hFetch : m.Fetches raw)
    (hNamed : m.LoadNamed)
    (hOp : (decode raw).opCode ∈ trappingOps) :
    m.Overflows ↔ ¬ FitsWord (m.exactResult raw) := by
  constructor
  · rintro ⟨m', hError⟩ hFits
    rcases oneInstruction_of_writeResult hFetch hNamed
        (execute_of_fits hOp hFits) with ⟨m'', hOk⟩
    rw [hOk] at hError
    cases hError
  · intro hNot
    rcases oneInstruction_overflow hFetch hNamed hOp hNot with
      ⟨m', hError, _⟩
    exact ⟨m', hError⟩

/-
  Additions, subtractions and comparisons are exact, and they
  trap on an overflow only.
-/
theorem arithmetic_exact
    (hFetch : m.Fetches raw)
    (hNamed : m.LoadNamed) :
    m.ExactArithmetic raw := by
  refine
    { overflow := overflows_iff hFetch hNamed
      unwritten := ?_
      noTrap := ?_
      trapping := ?_
      wrapping := ?_
      comparing := ?_ }
  · intro hOp m' hError r hr
    have hNot := (overflows_iff hFetch hNamed hOp).mp
      ⟨m', hError⟩
    rcases oneInstruction_overflow hFetch hNamed hOp hNot with
      ⟨m'', hError', hGeneral⟩
    rw [hError'] at hError
    cases hError
    exact hGeneral r (Nat.lt_trans hr (by decide))
  · intro hOp
    rcases List.mem_append.mp hOp with hWrap | hCompare
    · exact oneInstruction_of_writeResult hFetch hNamed
        fun _ => execute_wrapping hWrap
    · exact oneInstruction_of_writeResult hFetch hNamed
        fun _ => execute_comparing hCompare
  · intro hOp hReady hFits
    refine ⟨BitVec.ofInt 32 (m.exactResult raw), ?_, ?_⟩
    · exact BitVec.toInt_ofInt_eq_self (by decide) hFits.1
        hFits.2
    · exact (computes_iff hFetch hReady
        (execute_of_fits hOp hFits)).mpr rfl
  · intro hOp hReady
    exact (computes_iff hFetch hReady
      fun _ => execute_wrapping hOp).mpr rfl
  · intro hOp hReady
    exact (computes_iff hFetch hReady
      fun _ => execute_comparing hOp).mpr rfl

/- `add r3, r1, r2` of the largest number and one. -/
theorem arithmetic_exact_at_limit :
    (withValues 0x00221820 0x7fffffff 1).Overflows := by
  have hFetch : (withValues 0x00221820 0x7fffffff 1).Fetches
      0x00221820 :=
    ⟨_, rfl⟩
  have hExact := arithmetic_exact hFetch (by decide)
  exact (hExact.overflow (by decide)).mpr (by decide)

end Machine

end Nachos

------------------------------------
-- Divisions
------------------------------------

namespace Nachos

namespace Machine

open Instruction

variable {rs rt : Word}

/-
  What a division leaves in `LO` and `HI`: zeros for a zero
  divisor, and else a quotient and a remainder.
-/
structure DivisionLaw
    (op : OpCode)
    (rs rt lo hi : Word) : Prop where
  zero : rt = 0 → lo = 0 ∧ hi = 0
  sum : rt ≠ 0 → lo * rt + hi = rs
  signed :
    rt ≠ 0 → op = .div →
      hi.toInt.natAbs < rt.toInt.natAbs ∧
        (hi = 0 ∨ (hi.toInt < 0 ↔ rs.toInt < 0))
  unsigned :
    rt ≠ 0 → op = .divu →
      lo.toNat = rs.toNat / rt.toNat ∧
        hi.toNat = rs.toNat % rt.toNat

/- The division `raw` does not fault the host. -/
def Divides
    (m : Machine)
    (raw : Word) : Prop :=
  ∃ m', m.oneInstruction = .ok m' ∧
    DivisionLaw (decode raw).opCode
      (m.registers (reg (decode raw).rs))
      (m.registers (reg (decode raw).rt))
      (m'.registers LoReg) (m'.registers HiReg)

variable {m : Machine}
variable {raw : Word}

theorem divisionLaw_zero
    (op : OpCode)
    (rs : Word) :
    DivisionLaw op rs 0 0 0 :=
  ⟨fun _ => ⟨rfl, rfl⟩, fun hNe => absurd rfl hNe,
    fun hNe => absurd rfl hNe, fun hNe => absurd rfl hNe⟩

/- The quotient rounds to zero. -/
theorem sdiv_mul_add_srem
    (hFits : ¬ (rs = SignBit ∧ rt = -1)) :
    rs.sdiv rt * rt + rs.srem rt = rs := by
  have hNe : rs ≠ BitVec.intMin 32 ∨ rt ≠ -1#32 :=
    not_and_or.mp hFits
  calc
    rs.sdiv rt * rt + rs.srem rt =
        BitVec.ofInt 32 ((rs.sdiv rt).toInt * rt.toInt +
          (rs.srem rt).toInt) := by
      rw [BitVec.ofInt_add, BitVec.ofInt_mul,
        BitVec.ofInt_toInt, BitVec.ofInt_toInt,
        BitVec.ofInt_toInt]
    _ = BitVec.ofInt 32 rs.toInt := by
      rw [BitVec.toInt_sdiv_of_ne_or_ne _ _ hNe,
        BitVec.toInt_srem, Int.tdiv_mul_add_tmod]
    _ = rs := BitVec.ofInt_toInt

theorem srem_bound
    (rs : Word)
    {rt : Word}
    (hNonzero : rt ≠ 0) :
    (rs.srem rt).toInt.natAbs < rt.toInt.natAbs := by
  rw [BitVec.toInt_srem, Int.natAbs_tmod]
  apply Nat.mod_lt
  apply Int.natAbs_pos.mpr
  intro hZero
  exact hNonzero (BitVec.eq_of_toInt_eq hZero)

/- The remainder has the sign of the dividend. -/
theorem srem_sign
    (rs rt : Word) :
    rs.srem rt = 0 ∨
      ((rs.srem rt).toInt < 0 ↔ rs.toInt < 0) := by
  have hRem := BitVec.toInt_srem rs rt
  by_cases hSign : rs.toInt < 0
  · have hNeg : 0 ≤ (-rs.toInt).tmod rt.toInt :=
      Int.tmod_nonneg _ (by omega)
    rw [Int.neg_tmod, ← hRem] at hNeg
    by_cases hZero : (rs.srem rt).toInt = 0
    · exact Or.inl (BitVec.eq_of_toInt_eq hZero)
    · exact Or.inr (iff_of_true (by omega) hSign)
  · have hPos : 0 ≤ rs.toInt.tmod rt.toInt :=
      Int.tmod_nonneg _ (by omega)
    rw [← hRem] at hPos
    exact Or.inr (iff_of_false (by omega) hSign)

theorem divisionLaw_signed
    (hNonzero : rt ≠ 0)
    (hFits : ¬ (rs = SignBit ∧ rt = -1)) :
    DivisionLaw .div rs rt (rs.sdiv rt) (rs.srem rt) :=
  ⟨fun hZero => absurd hZero hNonzero,
    fun _ => sdiv_mul_add_srem hFits,
    fun _ _ => ⟨srem_bound rs hNonzero, srem_sign rs rt⟩,
    nofun⟩

theorem divisionLaw_unsigned
    (hNonzero : rt ≠ 0) :
    DivisionLaw .divu rs rt (rs / rt) (rs % rt) := by
  refine ⟨fun hZero => absurd hZero hNonzero, ?_, nofun, ?_⟩
  · intro _
    apply BitVec.eq_of_toNat_eq
    have hSum := Nat.div_add_mod' rs.toNat rt.toNat
    have hLt := rs.isLt
    rw [BitVec.toNat_add, BitVec.toNat_mul, BitVec.toNat_udiv,
      BitVec.toNat_umod, Nat.mod_add_mod, hSum,
      Nat.mod_eq_of_lt hLt]
  · intro _ _
    exact ⟨BitVec.toNat_udiv, BitVec.toNat_umod⟩

/- The instruction is done with both words written. -/
theorem complete_writeHiLo
    {n : Machine}
    (hLoad : (n.registers LoadReg).toNat < NumGPRegs)
    (hi lo : Word) :
    ∃ m', n.writeHiLo hi lo >>= complete = .ok m' ∧
      m'.registers LoReg = lo ∧ m'.registers HiReg = hi := by
  have hNamed : n.LoadNamed := Nat.lt_trans hLoad (by decide)
  have hFar : ∀ num : Register, NumGPRegs ≤ num.1 →
      num.1 ≠ (n.registers LoadReg).toNat := by
    intro num hNum
    omega
  have hLo := loadNamed_writeRegister
    (show LoadReg ≠ LoReg by decide) lo hNamed
  have hBoth := loadNamed_writeRegister
    (show LoadReg ≠ HiReg by decide) hi hLo
  rcases complete_general
      (e := ⟨(n.writeRegister LoReg lo).writeRegister HiReg hi,
        n.pcAfter, 0, 0⟩) hBoth with
    ⟨m', hComplete, hGeneral⟩
  refine ⟨m', hComplete, ?_, ?_⟩
  · rw [hGeneral LoReg (by decide),
      afterLoad_writeRegister (by decide) (by decide) hi
        (by decide)]
    exact afterLoad_writeRegister_self (by decide) (by decide)
      (hFar LoReg (by decide)) lo
  · rw [hGeneral HiReg (by decide)]
    exact afterLoad_writeRegister_self (by decide) (by decide)
      (hFar HiReg (by decide)) hi

/- A division that writes both words by the law. -/
theorem divides_of_writeHiLo
    {hi lo : Word}
    (hFetch : m.Fetches raw)
    (hLoad : (m.registers LoadReg).toNat < NumGPRegs)
    (hLaw :
      DivisionLaw (decode raw).opCode
        (m.registers (reg (decode raw).rs))
        (m.registers (reg (decode raw).rt)) lo hi)
    (hExecute :
      ∀ n : Machine, n.registers = m.registers →
        n.execute (decode raw) = n.writeHiLo hi lo) :
    m.Divides raw := by
  rcases oneInstruction_of_fetch hFetch with ⟨n, hRegs, hOne⟩
  rw [hExecute n hRegs] at hOne
  rw [← hRegs] at hLoad
  rcases complete_writeHiLo hLoad hi lo with
    ⟨m', hComplete, hLo, hHi⟩
  refine ⟨m', hOne.trans hComplete, ?_⟩
  rw [hLo, hHi]
  exact hLaw

/-
  A division satisfies the law and does not fault, unless it
  is a signed one of the least number by -1.
-/
theorem division_correct_iff
    (hFetch : m.Fetches raw)
    (hOp : (decode raw).opCode ∈ [OpCode.div, .divu])
    (hLoad : (m.registers LoadReg).toNat < NumGPRegs) :
    m.Divides raw ↔
      ¬ ((decode raw).opCode = .div ∧
        m.registers (reg (decode raw).rs) = SignBit ∧
        m.registers (reg (decode raw).rt) = -1) := by
  by_cases hFault : (decode raw).opCode = .div ∧
      m.registers (reg (decode raw).rs) = SignBit ∧
      m.registers (reg (decode raw).rt) = -1
  · refine iff_of_false ?_ (not_not.mpr hFault)
    rintro ⟨m', hOk, _⟩
    rcases hFault with ⟨hEq, hRs, hRt⟩
    rcases oneInstruction_of_fetch hFetch with ⟨n, hRegs, hOne⟩
    have hNonzero : ¬ (-1 : Word) = 0 := by
      decide
    simp only [execute, hEq, hRegs, hRs, hRt, if_neg hNonzero,
      and_self, if_true] at hOne
    rw [hOne] at hOk
    cases hOk
  · refine iff_of_true ?_ hFault
    simp only [List.mem_cons, List.not_mem_nil, or_false] at hOp
    by_cases hZero : m.registers (reg (decode raw).rt) = 0
    · apply divides_of_writeHiLo hFetch hLoad
      · rw [hZero]
        exact divisionLaw_zero _ _
      · intro n hRegs
        rcases hOp with hEq | hEq
        · simp only [execute, hEq, hRegs, hZero, if_true]
        · simp only [execute, hEq, hRegs, hZero, if_true]
    · rcases hOp with hEq | hEq
      · have hFits := fun hBoth => hFault ⟨hEq, hBoth⟩
        apply divides_of_writeHiLo hFetch hLoad
        · rw [hEq]
          exact divisionLaw_signed hZero hFits
        · intro n hRegs
          simp only [execute, hEq, hRegs, if_neg hZero,
            if_neg hFits]
      · apply divides_of_writeHiLo hFetch hLoad
        · rw [hEq]
          exact divisionLaw_unsigned hZero
        · intro n hRegs
          simp only [execute, hEq, hRegs, if_neg hZero]

/- `div r1, r2` of -7 by 2. -/
theorem division_correct_minus_seven :
    (withValues 0x0022001a (-7) 2).Divides 0x0022001a := by
  have hFetch : (withValues 0x0022001a (-7) 2).Fetches
      0x0022001a :=
    ⟨_, rfl⟩
  exact (division_correct_iff hFetch (by decide)
    (by decide)).mpr (by decide)

/- `div r1, r2` of the least number by -1. -/
theorem division_faults :
    (withValues 0x0022001a SignBit (-1)).Fetches 0x0022001a ∧
      (decode 0x0022001a).opCode = .div ∧
      (withValues 0x0022001a SignBit (-1)).oneInstruction =
        .error .undefined ∧
      ¬ (withValues 0x0022001a SignBit (-1)).Divides
        0x0022001a := by
  have hFault :
      (withValues 0x0022001a SignBit (-1)).oneInstruction =
        .error .undefined :=
    rfl
  refine ⟨⟨_, rfl⟩, by decide, hFault, ?_⟩
  rintro ⟨m', hOk, _⟩
  rw [hFault] at hOk
  cases hOk

end Machine

end Nachos
