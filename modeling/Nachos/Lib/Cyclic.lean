import Mathlib.Algebra.Order.Ring.Int
import Mathlib.Order.Bounds.Basic

/-
  Waiting for a position on something that turns.

  Time is cut into slots of equal length, and `n` positions
  take the slots in turn.  A wait is the distance to the next
  number with a given residue: with residue zero it rounds up
  to a boundary of slots.

  Main declarations:
    * `Cyclic.wait`
    * `Cyclic.isLeast_wait`
    * `Cyclic.firstSlot`
    * `Cyclic.Passes`
    * `Cyclic.isLeast_passes`
-/

------------------------------------
-- Waits
------------------------------------

namespace Cyclic

/- The distance from `a` to the next number like `r`. -/
def wait
    (n a r : Int) :
    Int :=
  (r - a) % n

variable {n : Int}

theorem wait_nonneg
    (hn : 0 < n)
    (a r : Int) :
    0 ≤ wait n a r :=
  Int.emod_nonneg _ hn.ne'

theorem wait_lt
    (hn : 0 < n)
    (a r : Int) :
    wait n a r < n :=
  Int.emod_lt_of_pos _ hn

theorem add_wait_emod
    (n a r : Int) :
    (a + wait n a r) % n = r % n := by
  rw [wait, Int.add_emod_emod, add_sub_cancel]

/- No number like `r` comes before the end of the wait. -/
theorem isLeast_wait
    (hn : 0 < n)
    (a r : Int) :
    IsLeast {k | a ≤ k ∧ k % n = r % n} (a + wait n a r) := by
  constructor
  · have hNonneg := wait_nonneg hn a r
    exact ⟨by omega, add_wait_emod n a r⟩
  · intro k hk
    rcases hk with ⟨hFrom, hLike⟩
    have hSame : wait n a r = (k - a) % n := by
      rw [wait, Int.sub_emod, ← hLike, ← Int.sub_emod]
    have hSum := Int.emod_add_mul_ediv (k - a) n
    have hTurns : 0 ≤ n * ((k - a) / n) :=
      Int.mul_nonneg hn.le
        (Int.ediv_nonneg (by omega) hn.le)
    omega

/- Rounding up is waiting for a multiple. -/
theorem isLeast_multiple
    (hn : 0 < n)
    (a : Int) :
    IsLeast {k | a ≤ k ∧ n ∣ k} (a + wait n a 0) := by
  have hLeast := isLeast_wait hn a 0
  simp only [Int.zero_emod, ← Int.dvd_iff_emod_eq_zero]
    at hLeast
  exact hLeast

end Cyclic

------------------------------------
-- Slots
------------------------------------

namespace Cyclic

/- The number of the first slot that starts at `t` or later. -/
def firstSlot
    (len t : Int) :
    Int :=
  (t + wait len t 0) / len

/-
  In the slot that ends at `c` the position `r` passes by,
  and the slot does not start before `t`.
-/
structure Passes
    (len n t r c : Int) : Prop where
  aligned : len ∣ c
  after : t ≤ c - len
  position : (c / len - 1) % n = r % n

variable {len n : Int}

theorem mul_firstSlot
    (hLen : 0 < len)
    (t : Int) :
    len * firstSlot len t = t + wait len t 0 :=
  Int.mul_ediv_cancel' (isLeast_multiple hLen t).1.2

/- A slot that starts at `t` or later is not before it. -/
theorem firstSlot_le
    (hLen : 0 < len)
    {t k : Int}
    (hAfter : t ≤ len * k) :
    firstSlot len t ≤ k := by
  have hFirst := (isLeast_multiple hLen t).2
    ⟨hAfter, Dvd.intro k rfl⟩
  rw [← mul_firstSlot hLen] at hFirst
  exact le_of_mul_le_mul_left hFirst hLen

/-
  Wait for the first slot, then for the position, and then
  for the end of its slot: nothing is faster.
-/
theorem isLeast_passes
    (hLen : 0 < len)
    (hn : 0 < n)
    (t r : Int) :
    IsLeast {c | Passes len n t r c}
      (len * (firstSlot len t +
        wait n (firstSlot len t) r + 1)) := by
  have hLeast := isLeast_wait hn (firstSlot len t) r
  constructor
  · refine ⟨Dvd.intro _ rfl, ?_, ?_⟩
    · have hFirst := mul_firstSlot hLen t
      have hRound := wait_nonneg hLen t 0
      have hWait := mul_le_mul_of_nonneg_left hLeast.1.1
        hLen.le
      rw [mul_add_one]
      omega
    · rw [Int.mul_ediv_cancel_left _ hLen.ne',
        add_sub_cancel_right]
      exact hLeast.1.2
  · intro c hc
    rcases hc with ⟨⟨k, rfl⟩, hAfter, hPosition⟩
    rw [Int.mul_ediv_cancel_left _ hLen.ne'] at hPosition
    have hSlot : firstSlot len t ≤ k - 1 := by
      apply firstSlot_le hLen
      rw [mul_sub_one]
      exact hAfter
    have hNext := hLeast.2 ⟨hSlot, hPosition⟩
    apply mul_le_mul_of_nonneg_left _ hLen.le
    omega

end Cyclic
