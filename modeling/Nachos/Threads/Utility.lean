import Mathlib.Tactic.Basic

/-
  Rounded divisions of the utility header.

  Main declarations:
    * `divRoundDown`
    * `divRoundUp`
-/

------------------------------------
-- Rounded Division
------------------------------------

namespace Nachos

/- Host division truncates towards zero. -/
def divRoundDown
    (n s : Int) :
    Int :=
  n.tdiv s

def divRoundUp
    (n s : Int) :
    Int :=
  n.tdiv s + if n.tmod s > 0 then 1 else 0

theorem divRoundDown_natCast
    (n s : Nat) :
    divRoundDown n s = (n / s : Nat) := by
  simp [divRoundDown, Int.tdiv_eq_ediv_of_nonneg]

/- Rounding up a natural is a ceiling division. -/
theorem divRoundUp_natCast
    (n : Nat)
    {s : Nat}
    (hs : 0 < s) :
    divRoundUp n s = ((n + (s - 1)) / s : Nat) := by
  have hTdiv : (n : Int).tdiv s = (n / s : Nat) := by
    simp [Int.tdiv_eq_ediv_of_nonneg]
  have hTmod : (n : Int).tmod s = (n % s : Nat) := by
    simp [Int.tmod_eq_emod_of_nonneg]
  rw [divRoundUp, hTdiv, hTmod]
  have hSplit := Nat.div_add_mod n s
  have hLt := Nat.mod_lt n hs
  by_cases hRem : n % s = 0
  · have hCeil : (n + (s - 1)) / s = n / s := by
      have hSum : n + (s - 1) = s * (n / s) + (s - 1) := by
        omega
      rw [hSum, Nat.mul_add_div hs,
        Nat.div_eq_of_lt (a := s - 1) (by omega),
        Nat.add_zero]
    simp [hRem, hCeil]
  · have hCeil : (n + (s - 1)) / s = n / s + 1 := by
      have hSum : n + (s - 1) =
          s * (n / s + 1) + (n % s - 1) := by
        rw [Nat.mul_add, Nat.mul_one]
        omega
      rw [hSum, Nat.mul_add_div hs,
        Nat.div_eq_of_lt (a := n % s - 1) (by omega),
        Nat.add_zero]
    have hPos : (0 : Int) < (n % s : Nat) := by
      omega
    rw [if_pos hPos, hCeil]
    simp

/- Rounding up a negative number rounds towards zero. -/
theorem divRoundUp_neg_natCast
    (n s : Nat) :
    divRoundUp (-(n : Int)) s = -((n / s : Nat) : Int) := by
  have hTdiv : (n : Int).tdiv s = (n / s : Nat) := by
    simp [Int.tdiv_eq_ediv_of_nonneg]
  have hTmod : ¬ (-(n : Int)).tmod s > 0 := by
    have hNonneg := Int.tmod_nonneg (s : Int)
      (Int.natCast_nonneg n)
    rw [Int.neg_tmod]
    omega
  rw [divRoundUp, if_neg hTmod, Int.neg_tdiv, hTdiv]
  exact Int.add_zero _

end Nachos
