import Nachos.Lib.ByteOrder

/-
  Numbers that are kept in two words.

  The sum, the double and the negative of a number of 64 bits
  are computed from its high and low words, with the carry
  between them taken care of by hand.

  Main declarations:
    * `DoubleWord.joined`
    * `DoubleWord.joined_add`
    * `DoubleWord.joined_double`
    * `DoubleWord.joined_neg`
-/

------------------------------------
-- Two Words
------------------------------------

namespace DoubleWord

/- The number with the given high and low words. -/
def joined
    (hi lo : BitVec 32) :
    BitVec 64 :=
  hi ++ lo

theorem toNat_joined
    (hi lo : BitVec 32) :
    (joined hi lo).toNat = hi.toNat * 2 ^ 32 + lo.toNat :=
  ByteOrder.toNat_append hi lo

/- A number that fits into the low word. -/
theorem joined_zero
    (lo : BitVec 32) :
    joined 0 lo = BitVec.ofNat 64 lo.toNat := by
  apply BitVec.eq_of_toNat_eq
  have hLo := lo.isLt
  rw [toNat_joined, BitVec.toNat_ofNat]
  change 0 * 2 ^ 32 + lo.toNat = _
  omega

/- The sum of the low words has wrapped if it is smaller. -/
theorem joined_add
    (hi lo hi' lo' : BitVec 32) :
    joined
        ((if lo + lo' < lo' then hi + 1 else hi) + hi')
        (lo + lo') =
      joined hi lo + joined hi' lo' := by
  apply BitVec.eq_of_toNat_eq
  have hLo := lo.isLt
  have hLo' := lo'.isLt
  rw [BitVec.toNat_add, toNat_joined, toNat_joined, toNat_joined]
  split
  · rename_i hCarry
    rw [BitVec.lt_def, BitVec.toNat_add] at hCarry
    simp only [BitVec.toNat_add, BitVec.ofNat_eq_ofNat,
      BitVec.toNat_ofNat]
    omega
  · rename_i hCarry
    rw [BitVec.lt_def, BitVec.toNat_add] at hCarry
    simp only [BitVec.toNat_add]
    omega

/- A shifted word has room for one bit. -/
theorem toNat_shiftLeft_or_one
    (w : BitVec 32) :
    (w <<< 1 ||| 1).toNat = (w <<< 1).toNat + 1 := by
  have hApart : (w <<< 1) &&& 1 = 0 := by
    apply BitVec.eq_of_getLsbD_eq
    intro i _
    simp only [BitVec.ofNat_eq_ofNat, BitVec.getLsbD_and,
      BitVec.getLsbD_shiftLeft, BitVec.getLsbD_one,
      BitVec.getLsbD_zero]
    cases i with
    | zero => simp
    | succ i => simp
  have hOr := BitVec.add_eq_or_of_and_eq_zero _ _ hApart
  rw [← hOr]
  simp only [BitVec.toNat_add, BitVec.toNat_shiftLeft,
    Nat.shiftLeft_eq, BitVec.ofNat_eq_ofNat, BitVec.toNat_ofNat]
  omega

theorem and_signBit
    (w : BitVec 32) :
    w &&& 0x80000000 ≠ 0 ↔ 2 ^ 31 ≤ w.toNat := by
  have hTop : (0x80000000 : BitVec 32) =
      BitVec.twoPow 32 31 := rfl
  have hMsb := BitVec.msb_eq_decide w
  have hBit : w.msb = w.getLsbD 31 := rfl
  rw [hTop, BitVec.and_twoPow, ← hBit, hMsb]
  simp only [Nat.reduceSub, decide_eq_true_eq]
  split
  · rename_i hLarge
    exact iff_of_true (by decide) hLarge
  · rename_i hSmall
    exact iff_of_false (fun hNe => hNe rfl) hSmall

/- The top bit of the low word moves into the high word. -/
theorem joined_double
    (hi lo : BitVec 32) :
    joined
        (if lo &&& 0x80000000 ≠ 0 then hi <<< 1 ||| 1
          else hi <<< 1)
        (lo <<< 1) =
      joined hi lo + joined hi lo := by
  apply BitVec.eq_of_toNat_eq
  have hHi := hi.isLt
  have hLo := lo.isLt
  rw [BitVec.toNat_add, toNat_joined, toNat_joined]
  split
  · rename_i hTop
    rw [and_signBit] at hTop
    rw [toNat_shiftLeft_or_one, BitVec.toNat_shiftLeft,
      BitVec.toNat_shiftLeft, Nat.shiftLeft_eq, Nat.shiftLeft_eq]
    omega
  · rename_i hTop
    rw [and_signBit] at hTop
    rw [BitVec.toNat_shiftLeft, BitVec.toNat_shiftLeft,
      Nat.shiftLeft_eq, Nat.shiftLeft_eq]
    omega

/- The two's complement of both words. -/
theorem joined_neg
    (hi lo : BitVec 32) :
    joined
        (if ~~~lo + 1 = 0 then ~~~hi + 1 else ~~~hi)
        (~~~lo + 1) =
      -joined hi lo := by
  apply BitVec.eq_of_toNat_eq
  have hHi := hi.isLt
  have hLo := lo.isLt
  rw [BitVec.toNat_neg, toNat_joined, toNat_joined]
  split
  · rename_i hZero
    have hNat := congrArg BitVec.toNat hZero
    simp only [BitVec.toNat_add, BitVec.toNat_not,
      BitVec.ofNat_eq_ofNat, BitVec.toNat_ofNat] at hNat ⊢
    omega
  · rename_i hNonzero
    rw [← BitVec.toNat_inj] at hNonzero
    simp only [BitVec.toNat_add, BitVec.toNat_not,
      BitVec.ofNat_eq_ofNat,
      BitVec.toNat_ofNat] at hNonzero ⊢
    omega

end DoubleWord
