import Nachos.Machine.Results

/-
  Shifts and bitwise operations.

  Both families follow the definition of the architecture but
  for three operations: the logical shifts to the right fill
  with the sign, and `OR` does not look at `rt`.  The results
  are right just if this makes no difference.

  Main declarations:
    * `Machine.shifted`
    * `Machine.bitwise`
    * `Machine.shift_correct_iff`
    * `Machine.bitwise_correct_iff`
-/

------------------------------------
-- Shifts
------------------------------------

namespace Nachos

namespace Machine

open Instruction

/- Shifts by an amount in a register. -/
def variableShifts : List OpCode :=
  [.sllv, .srlv, .srav]

/- The result of a shift by the definition of MIPS. -/
def shifted
    (op : OpCode)
    (rt : Word)
    (amount : Nat) :
    Word :=
  match op with
  | .sll | .sllv => rt <<< amount
  | .srl | .srlv => rt >>> amount
  | _ => rt.sshiftRight amount

/- The amount of the shift `raw`. -/
def shiftAmount
    (m : Machine)
    (raw : Word) :
    Nat :=
  if (decode raw).opCode ∈ fixedShifts then
    (shamt raw).toNat
  else
    ((m.registers (reg (decode raw).rs)).extractLsb' 0 5).toNat

/- The result of a shift in the simulator. -/
def simShifted
    (op : OpCode)
    (rt : Word)
    (amount : Nat) :
    Word :=
  match op with
  | .sll | .sllv => rt <<< amount
  | _ => rt.sshiftRight amount

variable {m : Machine}
variable {raw : Word}

theorem toNat_and_31
    (w : Word) :
    (w &&& 0x1f).toNat = (w.extractLsb' 0 5).toNat := by
  rw [BitVec.toNat_and, BitVec.extractLsb'_toNat]
  exact Nat.and_two_pow_sub_one_eq_mod w.toNat 5

/- The amount as a shift by a field has it. -/
theorem shiftAmount_fixed
    (hOp : (decode raw).opCode ∈ fixedShifts) :
    m.shiftAmount raw = (decode raw).extra.toNat := by
  rw [shiftAmount, if_pos hOp, extra_of_shift hOp,
    BitVec.toNat_setWidth_of_le (by decide)]

/- The amount as a shift by a register has it. -/
theorem shiftAmount_variable
    (hOp : (decode raw).opCode ∉ fixedShifts) :
    m.shiftAmount raw =
      (m.registers (reg (decode raw).rs) &&& 0x1f).toNat := by
  rw [shiftAmount, if_neg hOp, toNat_and_31]

/- All shifts write their result to `rd`. -/
theorem execute_shift
    (hOp :
      (decode raw).opCode ∈ fixedShifts ++ variableShifts)
    {n : Machine}
    (hRegs : n.registers = m.registers) :
    n.execute (decode raw) =
      n.writeResult (decode raw).rd
        (simShifted (decode raw).opCode
          (m.registers (reg (decode raw).rt))
          (m.shiftAmount raw)) := by
  rcases List.mem_append.mp hOp with hFixed | hVariable
  · rw [shiftAmount_fixed hFixed]
    simp only [fixedShifts, List.mem_cons, List.not_mem_nil,
      or_false] at hFixed
    rcases hFixed with hEq | hEq | hEq
    · simp only [execute, hEq, hRegs, simShifted]
    · simp only [execute, hEq, hRegs, simShifted]
    · simp only [execute, hEq, hRegs, simShifted]
  · have hApart : ∀ op ∈ variableShifts, op ∉ fixedShifts := by
      decide
    rw [shiftAmount_variable (hApart _ hVariable)]
    simp only [variableShifts, List.mem_cons, List.not_mem_nil,
      or_false] at hVariable
    rcases hVariable with hEq | hEq | hEq
    · simp only [execute, hEq, hRegs, simShifted]
    · simp only [execute, hEq, hRegs, simShifted]
    · simp only [execute, hEq, hRegs, simShifted]

/- Filling with the sign shows on a word with the top bit. -/
theorem sshiftRight_eq_iff
    (w : Word)
    (amount : Nat) :
    w.sshiftRight amount = w >>> amount ↔
      w.msb = false ∨ amount = 0 := by
  constructor
  · intro hEq
    have hMsb := congrArg BitVec.msb hEq
    rw [BitVec.msb_sshiftRight, BitVec.msb_ushiftRight] at hMsb
    cases hTop : w.msb with
    | false => exact Or.inl rfl
    | true =>
        rw [hTop, Bool.and_true] at hMsb
        simpa using hMsb.symm
  · rintro (hTop | rfl)
    · exact BitVec.sshiftRight_eq_of_msb_false hTop
    · rw [BitVec.sshiftRight_zero, BitVec.ushiftRight_zero]

theorem simShifted_eq_iff
    {op : OpCode}
    (hOp : op ∈ fixedShifts ++ variableShifts)
    (w : Word)
    (amount : Nat) :
    simShifted op w amount = shifted op w amount ↔
      (op ∈ [OpCode.srl, .srlv] → w.msb = false ∨ amount = 0)
    := by
  by_cases hLogical : op ∈ [OpCode.srl, .srlv]
  · rw [← sshiftRight_eq_iff]
    simp only [List.mem_cons, List.not_mem_nil, or_false]
      at hLogical
    rcases hLogical with rfl | rfl
    · exact ⟨fun hEq _ => hEq, fun hEq => hEq (by decide)⟩
    · exact ⟨fun hEq _ => hEq, fun hEq => hEq (by decide)⟩
  · refine iff_of_true ?_ fun hIn => absurd hIn hLogical
    simp only [fixedShifts, variableShifts, List.cons_append,
      List.nil_append, List.mem_cons, List.not_mem_nil,
      or_false] at hOp hLogical
    rcases hOp with rfl | rfl | rfl | rfl | rfl | rfl
    · rfl
    · exact absurd (Or.inl rfl) hLogical
    · rfl
    · rfl
    · exact absurd (Or.inr rfl) hLogical
    · rfl

/-
  A shift leaves in `rd` what the architecture defines, unless
  it is a logical shift to the right, by at least one place,
  of a word with the top bit set.
-/
theorem shift_correct_iff
    (hFetch : m.Fetches raw)
    (hOp :
      (decode raw).opCode ∈ fixedShifts ++ variableShifts)
    (hReady : m.Ready (decode raw).rd) :
    m.Computes (decode raw).rd
        (shifted (decode raw).opCode
          (m.registers (reg (decode raw).rt))
          (m.shiftAmount raw)) ↔
      ((decode raw).opCode ∈ [OpCode.srl, .srlv] →
        (m.registers (reg (decode raw).rt)).msb = false ∨
          m.shiftAmount raw = 0) := by
  rw [computes_iff hFetch hReady fun _ => execute_shift hOp]
  exact simShifted_eq_iff hOp _ _

/- `srl r3, r2, 1` of a word without the top bit. -/
theorem shift_correct_six :
    (withValues 0x00021842 0 6).Computes 3 3 := by
  have hFetch : (withValues 0x00021842 0 6).Fetches 0x00021842 :=
    ⟨_, rfl⟩
  have hIff := shift_correct_iff hFetch (by decide)
    ⟨by decide, by decide, by decide⟩
  exact hIff.mpr fun _ => Or.inl (by decide)

/- `srl r3, r2, 1` of a word with the top bit. -/
theorem srl_fills_with_sign :
    (withValues 0x00021842 0 0x80000000).Fetches 0x00021842 ∧
      (decode 0x00021842).opCode = .srl ∧
      (withValues 0x00021842 0 0x80000000).Ready 3 ∧
      (withValues 0x00021842 0 0x80000000).Computes 3
        0xc0000000 ∧
      ¬ (withValues 0x00021842 0 0x80000000).Computes 3
        (shifted .srl 0x80000000 1) := by
  have hFetch : (withValues 0x00021842 0 0x80000000).Fetches
      0x00021842 :=
    ⟨_, rfl⟩
  have hReady : (withValues 0x00021842 0 0x80000000).Ready 3 :=
    ⟨by decide, by decide, by decide⟩
  have hIff : ∀ value,
      (withValues 0x00021842 0 0x80000000).Computes 3 value ↔
        simShifted .srl 0x80000000 1 = value :=
    fun _ => computes_iff hFetch hReady fun _ =>
      execute_shift (by decide)
  refine ⟨hFetch, by decide, hReady, ?_, ?_⟩
  · rw [hIff]
    decide
  · rw [hIff]
    decide

end Machine

end Nachos

------------------------------------
-- Bitwise Operations
------------------------------------

namespace Nachos

namespace Machine

open Instruction

/- Bitwise operations on two registers. -/
def bitwiseOps : List OpCode :=
  [.and, .or, .xor, .nor]

/- Bitwise operations with an immediate. -/
def bitwiseImmediates : List OpCode :=
  [.andi, .ori, .xori, .lui]

/- The result by the definition of MIPS. -/
def bitwise
    (op : OpCode)
    (rs rt : Word)
    (imm : BitVec 16) :
    Word :=
  match op with
  | .and => rs &&& rt
  | .or => rs ||| rt
  | .xor => rs ^^^ rt
  | .nor => ~~~(rs ||| rt)
  | .andi => rs &&& imm.setWidth 32
  | .ori => rs ||| imm.setWidth 32
  | .xori => rs ^^^ imm.setWidth 32
  | _ => imm.setWidth 32 <<< 16

/- The result in the simulator. -/
def simBitwise
    (op : OpCode)
    (rs rt : Word)
    (imm : BitVec 16) :
    Word :=
  match op with
  | .or => rs ||| rs
  | _ => bitwise op rs rt imm

variable {m : Machine}
variable {raw : Word}

/- Masking undoes the extension of the sign. -/
theorem signExtend_and
    (imm : BitVec 16) :
    imm.signExtend 32 &&& 0xffff = imm.setWidth 32 := by
  have hLow : ∀ i < 32,
      (0xffff : Word).getLsbD i = decide (i < 16) := by
    decide
  apply BitVec.eq_of_getLsbD_eq
  intro i hi
  rw [BitVec.getLsbD_and, BitVec.getLsbD_signExtend, hLow i hi,
    BitVec.getLsbD_setWidth]
  have hAbove : 16 ≤ i → imm.getLsbD i = false :=
    BitVec.getLsbD_of_ge imm i
  grind

/- Shifting drops the extension of the sign. -/
theorem signExtend_shiftLeft
    (imm : BitVec 16) :
    imm.signExtend 32 <<< 16 = imm.setWidth 32 <<< 16 := by
  apply BitVec.eq_of_getLsbD_eq
  intro i hi
  rw [BitVec.getLsbD_shiftLeft, BitVec.getLsbD_shiftLeft,
    BitVec.getLsbD_signExtend, BitVec.getLsbD_setWidth]
  grind

theorem execute_bitwise
    (hOp :
      (decode raw).opCode ∈ bitwiseOps ++ bitwiseImmediates)
    {n : Machine}
    (hRegs : n.registers = m.registers) :
    n.execute (decode raw) =
      n.writeResult (destination (decode raw))
        (simBitwise (decode raw).opCode
          (m.registers (reg (decode raw).rs))
          (m.registers (reg (decode raw).rt))
          (immediate raw)) := by
  rcases List.mem_append.mp hOp with hTwo | hOne
  · have hApart : ∀ op ∈ bitwiseOps, op ∉ immediateOps := by
      decide
    rw [destination, if_neg (hApart _ hTwo)]
    simp only [bitwiseOps, List.mem_cons, List.not_mem_nil,
      or_false] at hTwo
    rcases hTwo with hEq | hEq | hEq | hEq
    · simp only [execute, hEq, hRegs, simBitwise, bitwise]
    · simp only [execute, hEq, hRegs, simBitwise]
    · simp only [execute, hEq, hRegs, simBitwise, bitwise]
    · simp only [execute, hEq, hRegs, simBitwise, bitwise]
  · have hAmong : ∀ op ∈ bitwiseImmediates,
        op ∈ immediateOps := by
      decide
    have hExtra := extra_of_immediate (hAmong _ hOne)
    rw [destination, if_pos (hAmong _ hOne)]
    simp only [bitwiseImmediates, List.mem_cons,
      List.not_mem_nil, or_false] at hOne
    rcases hOne with hEq | hEq | hEq | hEq
    · simp only [execute, hEq, hRegs, hExtra, signExtend_and,
        simBitwise, bitwise]
    · simp only [execute, hEq, hRegs, hExtra, signExtend_and,
        simBitwise, bitwise]
    · simp only [execute, hEq, hRegs, hExtra, signExtend_and,
        simBitwise, bitwise]
    · simp only [execute, hEq, hExtra, signExtend_shiftLeft,
        simBitwise, bitwise]

/- A word is its union with another just if it covers it. -/
theorem or_self_eq_iff
    (rs rt : Word) :
    rs ||| rs = rs ||| rt ↔ rt &&& ~~~rs = 0 := by
  rw [BitVec.or_self]
  constructor
  · intro hEq
    apply BitVec.eq_of_getLsbD_eq
    intro i _
    have hBit := congrArg (·.getLsbD i) hEq
    simp only [BitVec.getLsbD_or] at hBit
    simp only [BitVec.getLsbD_and, BitVec.getLsbD_not,
      BitVec.ofNat_eq_ofNat, BitVec.getLsbD_zero]
    grind
  · intro hZero
    apply BitVec.eq_of_getLsbD_eq
    intro i hi
    have hBit := congrArg (·.getLsbD i) hZero
    simp only [BitVec.getLsbD_and, BitVec.getLsbD_not,
      BitVec.ofNat_eq_ofNat, BitVec.getLsbD_zero, hi] at hBit
    simp only [BitVec.getLsbD_or]
    grind

theorem simBitwise_eq_iff
    (op : OpCode)
    (rs rt : Word)
    (imm : BitVec 16) :
    simBitwise op rs rt imm = bitwise op rs rt imm ↔
      (op = .or → rt &&& ~~~rs = 0) := by
  by_cases hOr : op = .or
  · subst hOr
    rw [← or_self_eq_iff]
    exact ⟨fun hEq _ => hEq, fun hEq => hEq rfl⟩
  · refine iff_of_true ?_ fun hEq => absurd hEq hOr
    unfold simBitwise
    split
    · exact absurd rfl hOr
    · rfl

/-
  A bitwise operation leaves in its destination what the
  architecture defines, unless it is an `OR` and `rt` has a
  bit that `rs` has not.
-/
theorem bitwise_correct_iff
    (hFetch : m.Fetches raw)
    (hOp :
      (decode raw).opCode ∈ bitwiseOps ++ bitwiseImmediates)
    (hReady : m.Ready (destination (decode raw))) :
    m.Computes (destination (decode raw))
        (bitwise (decode raw).opCode
          (m.registers (reg (decode raw).rs))
          (m.registers (reg (decode raw).rt))
          (immediate raw)) ↔
      ((decode raw).opCode = .or →
        m.registers (reg (decode raw).rt) &&&
          ~~~m.registers (reg (decode raw).rs) = 0) := by
  rw [computes_iff hFetch hReady fun _ => execute_bitwise hOp]
  exact simBitwise_eq_iff _ _ _ _

/- `or r3, r1, r2` of words where `r1` has all the bits. -/
theorem bitwise_correct_covered :
    (withValues 0x00221825 7 2).Computes 3 7 := by
  have hFetch : (withValues 0x00221825 7 2).Fetches 0x00221825 :=
    ⟨_, rfl⟩
  have hIff := bitwise_correct_iff hFetch (by decide)
    ⟨by decide, by decide, by decide⟩
  exact hIff.mpr fun _ => by decide

/- `or r3, r1, r2` of the words 1 and 2. -/
theorem or_ignores_rt :
    (withValues 0x00221825 1 2).Fetches 0x00221825 ∧
      (decode 0x00221825).opCode = .or ∧
      (withValues 0x00221825 1 2).Ready 3 ∧
      (withValues 0x00221825 1 2).Computes 3 1 ∧
      ¬ (withValues 0x00221825 1 2).Computes 3
        (bitwise .or 1 2 0x1825) := by
  have hFetch : (withValues 0x00221825 1 2).Fetches 0x00221825 :=
    ⟨_, rfl⟩
  have hReady : (withValues 0x00221825 1 2).Ready 3 :=
    ⟨by decide, by decide, by decide⟩
  have hIff : ∀ value,
      (withValues 0x00221825 1 2).Computes 3 value ↔
        simBitwise .or 1 2 0x1825 = value :=
    fun _ => computes_iff hFetch hReady fun _ =>
      execute_bitwise (by decide)
  refine ⟨hFetch, by decide, hReady, ?_, ?_⟩
  · rw [hIff]
    decide
  · rw [hIff]
    decide

end Machine

end Nachos
