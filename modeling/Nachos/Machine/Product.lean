import Nachos.Lib.DoubleWord
import Nachos.Machine.Mips

/-
  Multiplication is exact.

  The loop of `Mult` adds up multiples of one factor for the
  bits of the other.  After all bits the two words hold the
  product of the magnitudes, and the sign is put back in.

  Main declarations:
    * `operand`
    * `joined_multLoop`
    * `mult_exact`
-/

------------------------------------
-- The Loop
------------------------------------

namespace Nachos

open DoubleWord

theorem and_one
    (a : Word) :
    a &&& 1 ≠ 0 ↔ a.toNat % 2 = 1 := by
  rw [ne_eq, ← BitVec.toNat_inj, BitVec.toNat_and]
  change ¬ a.toNat &&& (2 ^ 1 - 1) = 0 ↔ _
  rw [Nat.and_two_pow_sub_one_eq_mod]
  omega

/- No bit but the lowest one is set. -/
theorem toNat_of_last_bit
    {a : Word}
    (hOdd : a.toNat % 2 = 1)
    (hLast : a &&& 0xfffffffe = 0) :
    a.toNat = 1 := by
  have hAll : a &&& (0xfffffffe ||| 1) = a :=
    BitVec.and_allOnes
  rw [BitVec.and_or_distrib_left, hLast, BitVec.ofNat_eq_ofNat,
    BitVec.zero_or] at hAll
  rw [← hAll, BitVec.toNat_and]
  exact (Nat.and_two_pow_sub_one_eq_mod a.toNat 1).trans hOdd

/- The sign that is shifted in does not reach the low bits. -/
theorem sshiftRight_mod
    (a : Word)
    {n : Nat}
    (hn : n < 32) :
    (a.sshiftRight 1).toNat % 2 ^ n =
      a.toNat / 2 % 2 ^ n := by
  have hPow : 2 ^ 31 = 2 ^ n * 2 ^ (31 - n) := by
    rw [← Nat.pow_add]
    congr 1
    omega
  rw [BitVec.toNat_sshiftRight]
  split
  · rename_i hMsb
    have hTop := BitVec.le_toNat_of_msb_true hMsb
    have hLt := a.isLt
    have hShift : 2 ^ 32 - 1 - (2 ^ 32 - 1 - a.toNat) >>> 1 =
        a.toNat / 2 + 2 ^ n * 2 ^ (31 - n) := by
      rw [← hPow, Nat.shiftRight_eq_div_pow]
      omega
    rw [hShift, Nat.add_mul_mod_self_left]
  · rw [Nat.shiftRight_eq_div_pow, Nat.pow_one]

/- The lowest bit, and the others for twice the factor. -/
theorem mul_low_bits
    (a n : Nat)
    (b : BitVec 64) :
    BitVec.ofNat 64 (a % 2 ^ (n + 1)) * b =
      BitVec.ofNat 64 (a % 2) * b +
        BitVec.ofNat 64 (a / 2 % 2 ^ n) * (b + b) := by
  rw [Nat.pow_succ, Nat.mul_comm, Nat.mod_mul, BitVec.ofNat_add,
    BitVec.add_mul, BitVec.ofNat_mul, BitVec.mul_add]
  congr 1
  rw [BitVec.mul_assoc]
  exact BitVec.two_mul

/- What a round of the loop does for a bit that is set. -/
theorem multLoop_odd
    {a : Word}
    (hOdd : a &&& 1 ≠ 0)
    (bLo bHi lo hi : Word)
    (n : Nat) :
    multLoop a bLo bHi lo hi (n + 1) =
      if a &&& 0xfffffffe = 0 then
        ((if lo + bLo < bLo then hi + 1 else hi) + bHi,
          lo + bLo)
      else
        multLoop (a.sshiftRight 1) (bLo <<< 1)
          (if bLo &&& 0x80000000 ≠ 0 then bHi <<< 1 ||| 1
            else bHi <<< 1)
          (lo + bLo)
          ((if lo + bLo < bLo then hi + 1 else hi) + bHi)
          n := by
  rw [multLoop]
  simp only [hOdd, true_and, if_true, ne_eq, not_false_eq_true]

theorem multLoop_even
    {a : Word}
    (hEven : ¬ a &&& 1 ≠ 0)
    (bLo bHi lo hi : Word)
    (n : Nat) :
    multLoop a bLo bHi lo hi (n + 1) =
      multLoop (a.sshiftRight 1) (bLo <<< 1)
        (if bLo &&& 0x80000000 ≠ 0 then bHi <<< 1 ||| 1
          else bHi <<< 1)
        lo hi n := by
  rw [multLoop]
  simp only [hEven, false_and, if_false]

/-
  The loop adds the product of `b` with the lowest `n` bits
  of `a`, which are all the bits it still has to look at.
-/
theorem joined_multLoop
    {n : Nat}
    (hn : n ≤ 32)
    (a bLo bHi lo hi : Word) :
    joined (multLoop a bLo bHi lo hi n).1
        (multLoop a bLo bHi lo hi n).2 =
      joined hi lo +
        BitVec.ofNat 64 (a.toNat % 2 ^ n) * joined bHi bLo := by
  induction n generalizing a bLo bHi lo hi with
  | zero =>
      rw [Nat.pow_zero, Nat.mod_one, BitVec.zero_mul,
        BitVec.add_zero]
      rfl
  | succ n ih =>
      have hRest := ih (by omega) (a.sshiftRight 1) (bLo <<< 1)
        (if bLo &&& 0x80000000 ≠ 0 then bHi <<< 1 ||| 1
          else bHi <<< 1)
      rw [joined_double, sshiftRight_mod a (by omega)] at hRest
      rw [mul_low_bits, ← BitVec.add_assoc]
      by_cases hBit : a &&& 1 ≠ 0
      · have hOdd := (and_one a).mp hBit
        rw [multLoop_odd hBit, hOdd, BitVec.one_mul, ← joined_add]
        split
        · rename_i hLast
          rw [toNat_of_last_bit hOdd hLast]
          simp only [Nat.reduceDiv, Nat.zero_mod,
            BitVec.zero_mul, BitVec.add_zero]
        · exact hRest _ _
      · have hEven : a.toNat % 2 = 0 := by
          have hNot := mt (and_one a).mpr hBit
          omega
        rw [multLoop_even hBit, hEven, BitVec.zero_mul,
          BitVec.add_zero]
        exact hRest lo hi

------------------------------------
-- The Sign
------------------------------------

/- A word as the number that is multiplied. -/
def operand
    (w : Word)
    (signedArith : Bool) :
    Int :=
  if signedArith then w.toInt else w.toNat

theorem operand_zero
    (signedArith : Bool) :
    operand 0 signedArith = 0 := by
  cases signedArith with
  | false => rfl
  | true => rfl

/- A number is its magnitude with its sign. -/
theorem ofInt_operand
    (w : Word)
    (signedArith : Bool) :
    BitVec.ofInt 64 (operand w signedArith) =
      if signedArith && w.slt 0 then
        -BitVec.ofNat 64 (-w).toNat
      else
        BitVec.ofNat 64 w.toNat := by
  unfold operand
  cases signedArith with
  | false => exact BitVec.ofInt_natCast 64 w.toNat
  | true =>
      rw [if_pos rfl, Bool.true_and]
      split
      · rename_i hNeg
        have hLt := w.isLt
        have hMsb := BitVec.slt_zero_iff_msb_cond.mp hNeg
        have hTop := BitVec.le_toNat_of_msb_true hMsb
        have hInt : w.toInt = -((-w).toNat : Int) := by
          rw [BitVec.toInt_eq_msb_cond, hMsb, if_pos rfl,
            BitVec.toNat_neg]
          omega
        rw [hInt, BitVec.ofInt_neg, BitVec.ofInt_natCast]
      · rename_i hNeg
        have hMsb := mt BitVec.slt_zero_iff_msb_cond.mpr hNeg
        rw [BitVec.toInt_eq_msb_cond, if_neg hMsb,
          BitVec.ofInt_natCast]

/- The words of the product of two magnitudes. -/
theorem joined_magnitudes
    (a b : Word) :
    joined (multLoop a b 0 0 0 32).1
        (multLoop a b 0 0 0 32).2 =
      BitVec.ofNat 64 a.toNat * BitVec.ofNat 64 b.toNat := by
  rw [joined_multLoop (Nat.le_refl 32),
    Nat.mod_eq_of_lt a.isLt, joined_zero, joined_zero]
  exact BitVec.zero_add _

/-
  The two words hold the product of the operands, as signed
  or as unsigned numbers.
-/
theorem mult_exact
    (a b : Word)
    (signedArith : Bool) :
    joined (mult a b signedArith).1 (mult a b signedArith).2 =
      BitVec.ofInt 64
        (operand a signedArith * operand b signedArith) := by
  unfold mult
  split
  · rename_i hZero
    rcases hZero with rfl | rfl
    · rw [operand_zero, Int.zero_mul]
      rfl
    · rw [operand_zero, Int.mul_zero]
      rfl
  · rw [BitVec.ofInt_mul, ofInt_operand, ofInt_operand]
    dsimp only
    cases signedArith && a.slt 0 with
    | false =>
        cases signedArith && b.slt 0 with
        | false => exact joined_magnitudes a b
        | true =>
            have hNeg := (joined_neg _ _).trans
              (congrArg Neg.neg (joined_magnitudes a (-b)))
            exact hNeg.trans (BitVec.mul_neg _ _).symm
    | true =>
        cases signedArith && b.slt 0 with
        | false =>
            have hNeg := (joined_neg _ _).trans
              (congrArg Neg.neg (joined_magnitudes (-a) b))
            exact hNeg.trans (BitVec.neg_mul _ _).symm
        | true =>
            have hProduct := joined_magnitudes (-a) (-b)
            exact hProduct.trans (BitVec.neg_mul_neg _ _).symm

end Nachos
