import Mathlib.Algebra.Ring.Int.Defs
import Mathlib.Algebra.Ring.Nat
import Mathlib.Tactic.Basic

/-
  Signed 32-bit integers of the host, as mathematical
  integers that wrap around at the ends of their range.

  Main declarations:
    * `CInt.wrap`
    * `CInt.checked`
    * `CInt.wrap_of_mem`
-/

------------------------------------
-- Wrapping
------------------------------------

namespace CInt

/- The value of an integer after it is stored in 32 bits. -/
def wrap
    (x : Int) :
    Int :=
  x.bmod (2 ^ 32)

/- The result of arithmetic, whose overflow is undefined. -/
def checked
    (x : Int) :
    Option Int :=
  if -(2 ^ 31) ≤ x ∧ x < 2 ^ 31 then some x else none

theorem eq_of_checked
    {x y : Int}
    (hChecked : checked x = some y) :
    y = x := by
  unfold checked at hChecked
  split at hChecked
  · cases hChecked
    rfl
  · cases hChecked

/- Values in the range of the type are kept. -/
theorem wrap_of_mem
    {x : Int}
    (hLow : -(2 ^ 31) ≤ x)
    (hHigh : x < 2 ^ 31) :
    wrap x = x := by
  unfold wrap
  apply Int.bmod_eq_of_le <;> omega

theorem toNat_ofInt_natCast
    {n : Nat}
    (hn : n < 2 ^ 32) :
    (BitVec.ofInt 32 n).toNat = n := by
  simp only [BitVec.ofInt_natCast, BitVec.toNat_ofNat]
  omega

/- A word below `2 ^ 31` has the same value either way. -/
theorem toInt_eq_toNat
    {w : BitVec 32}
    (hw : w.toNat < 2 ^ 31) :
    w.toInt = w.toNat := by
  rw [BitVec.toInt_eq_toNat_cond]
  omega

end CInt
