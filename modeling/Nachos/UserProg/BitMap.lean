import Mathlib.Data.List.FinRange
import Nachos.Lib.Bytes
import Nachos.Threads.Utility

/-
  Bitmaps packed into words.

  `BitMap numBits` is the array of words that stores the
  bits.  An index outside the map is a failed assertion and
  gives `none`; the internal operations `bit`, `setBit` and
  `clearBit` take indices that are known to be inside.

  Main declarations:
    * `BitMap.test`
    * `BitMap.find`
    * `BitMap.bit_clearBit`
    * `BitMap.bit_create`
    * `BitMap.find_of_freeBits_eq_cons`
-/

------------------------------------
-- Packed Bits
------------------------------------

namespace Nachos

abbrev BitsInByte : Nat := 8

abbrev BitsInWord : Nat := 32

/- Words of storage, rounded up to a whole word. -/
def numWords
    (numBits : Nat) :
    Nat :=
  (divRoundUp numBits BitsInWord).toNat

theorem numWords_eq
    (numBits : Nat) :
    numWords numBits = (numBits + 31) / 32 := by
  unfold numWords
  rw [divRoundUp_natCast numBits (by decide)]
  rfl

structure BitMap (numBits : Nat) where
  map : Fin (numWords numBits) → BitVec 32

namespace BitMap

variable {numBits : Nat}

/- The word that stores a bit. -/
def wordIndex
    (which : Fin numBits) :
    Fin (numWords numBits) :=
  ⟨which / BitsInWord, by
    have hWords := numWords_eq numBits
    have hWhich := which.2
    simp only [BitsInWord]
    omega⟩

/- The mask that selects a bit of its word. -/
def mask
    (which : Fin numBits) :
    BitVec 32 :=
  1#32 <<< (which.1 % BitsInWord)

def bit
    (m : BitMap numBits)
    (which : Fin numBits) :
    Bool :=
  m.map (wordIndex which) &&& mask which != 0

def setBit
    (m : BitMap numBits)
    (which : Fin numBits) :
    BitMap numBits :=
  ⟨Function.update m.map (wordIndex which)
    (m.map (wordIndex which) ||| mask which)⟩

def clearBit
    (m : BitMap numBits)
    (which : Fin numBits) :
    BitMap numBits :=
  ⟨Function.update m.map (wordIndex which)
    (m.map (wordIndex which) &&& ~~~ mask which)⟩

end BitMap

end Nachos

------------------------------------
-- Bitmap Operations
------------------------------------

namespace Nachos

namespace BitMap

variable {numBits : Nat}

/- Set the "nth" bit; the index is asserted. -/
def mark
    (m : BitMap numBits)
    (which : Int) :
    Option (BitMap numBits) :=
  if h : 0 ≤ which ∧ which < numBits then
    some (m.setBit ⟨which.toNat, by omega⟩)
  else
    none

/- Clear the "nth" bit; the index is asserted. -/
def clear
    (m : BitMap numBits)
    (which : Int) :
    Option (BitMap numBits) :=
  if h : 0 ≤ which ∧ which < numBits then
    some (m.clearBit ⟨which.toNat, by omega⟩)
  else
    none

/- Is the "nth" bit set?  The index is asserted. -/
def test
    (m : BitMap numBits)
    (which : Int) :
    Option Bool :=
  if h : 0 ≤ which ∧ which < numBits then
    some (m.bit ⟨which.toNat, by omega⟩)
  else
    none

/- The constructor clears all bits of the fresh words. -/
def create
    (memory : Fin (numWords numBits) → BitVec 32) :
    BitMap numBits :=
  (List.finRange numBits).foldl clearBit ⟨memory⟩

/-
  Return the number of the first clear bit and set it, or
  return -1 when no bit is clear.
-/
def find
    (m : BitMap numBits) :
    Int × BitMap numBits :=
  match (List.finRange numBits).find?
      (fun i => !m.bit i) with
  | some i => (i.1, m.setBit i)
  | none => (-1, m)

/- The number of clear bits. -/
def numClear
    (m : BitMap numBits) :
    Nat :=
  (List.finRange numBits).countP (fun i => !m.bit i)

------------------------------------
-- Single Bits
------------------------------------

private theorem mask_getLsbD
    (which : Fin numBits)
    (j : Nat) :
    (mask which).getLsbD j =
      decide (j = which.1 % 32) := by
  have hMod : which.1 % 32 < 32 := Nat.mod_lt _ (by decide)
  simp only [mask, BitsInWord, BitVec.getLsbD_shiftLeft,
    BitVec.getLsbD_one]
  rw [Bool.eq_iff_iff]
  simp
  omega

/- A bit is the corresponding bit of its word. -/
theorem bit_eq_getLsbD
    (m : BitMap numBits)
    (which : Fin numBits) :
    m.bit which =
      (m.map (wordIndex which)).getLsbD (which.1 % 32) := by
  have hMod : which.1 % 32 < 32 := Nat.mod_lt _ (by decide)
  cases hBit :
      (m.map (wordIndex which)).getLsbD (which.1 % 32) with
  | false =>
      have hZero :
          m.map (wordIndex which) &&& mask which = 0 := by
        apply BitVec.eq_of_getLsbD_eq
        intro j hj
        rw [BitVec.getLsbD_and, mask_getLsbD]
        by_cases hEq : j = which.1 % 32
        · subst hEq
          simp [hBit]
        · simp [hEq]
      simp [bit, hZero]
  | true =>
      have hNe :
          m.map (wordIndex which) &&& mask which ≠ 0#32 := by
        intro hZero
        have hOne := congrArg
          (fun w => BitVec.getLsbD w (which.1 % 32)) hZero
        simp [mask_getLsbD, hBit] at hOne
      simp [bit, hNe]

/- Bits of one word at the same place are the same bit. -/
private theorem eq_of_wordIndex_eq
    {i j : Fin numBits}
    (hWord : wordIndex i = wordIndex j)
    (hMod : i.1 % 32 = j.1 % 32) :
    i = j := by
  have hDiv : i.1 / 32 = j.1 / 32 := by
    simpa [wordIndex] using hWord
  apply Fin.ext
  omega

/- Setting a bit changes that bit only. -/
@[simp] theorem bit_setBit
    (m : BitMap numBits)
    (i j : Fin numBits) :
    (m.setBit i).bit j = (decide (i = j) || m.bit j) := by
  rw [bit_eq_getLsbD, bit_eq_getLsbD]
  by_cases hWord : wordIndex j = wordIndex i
  · simp only [setBit, hWord, Function.update_self,
      BitVec.getLsbD_or, mask_getLsbD]
    rw [Bool.or_comm]
    congr 1
    rw [decide_eq_decide]
    constructor
    · intro hMod
      exact eq_of_wordIndex_eq hWord.symm hMod.symm
    · intro hEq
      rw [hEq]
  · have hNe : i ≠ j := by
      intro hEq
      exact hWord (by rw [hEq])
    simp [setBit, Function.update_of_ne hWord, hNe]

/- Clearing a bit changes that bit only. -/
@[simp] theorem bit_clearBit
    (m : BitMap numBits)
    (i j : Fin numBits) :
    (m.clearBit i).bit j =
      (!decide (i = j) && m.bit j) := by
  rw [bit_eq_getLsbD, bit_eq_getLsbD]
  have hMod : j.1 % 32 < 32 := Nat.mod_lt _ (by decide)
  by_cases hWord : wordIndex j = wordIndex i
  · simp only [clearBit, hWord, Function.update_self,
      BitVec.getLsbD_and, BitVec.getLsbD_not, mask_getLsbD,
      hMod, decide_true, Bool.true_and]
    rw [Bool.and_comm]
    congr 2
    rw [decide_eq_decide]
    constructor
    · intro hEq
      exact eq_of_wordIndex_eq hWord.symm hEq.symm
    · intro hEq
      rw [hEq]
  · have hNe : i ≠ j := by
      intro hEq
      exact hWord (by rw [hEq])
    simp [clearBit, Function.update_of_ne hWord, hNe]

private theorem bit_foldl_clearBit
    (indices : List (Fin numBits))
    (m : BitMap numBits)
    (j : Fin numBits) :
    (indices.foldl clearBit m).bit j =
      (!decide (j ∈ indices) && m.bit j) := by
  induction indices generalizing m with
  | nil => simp
  | cons i indices ih =>
      rw [List.foldl_cons, ih, bit_clearBit]
      by_cases hEq : i = j
      · subst hEq
        simp
      · simp [hEq, Ne.symm hEq]

/- A fresh bitmap has no bit set, whatever memory held. -/
@[simp] theorem bit_create
    (memory : Fin (numWords numBits) → BitVec 32)
    (j : Fin numBits) :
    (create memory).bit j = false := by
  simp [create, bit_foldl_clearBit]

end BitMap

end Nachos

------------------------------------
-- Free Bits
------------------------------------

namespace Nachos

namespace BitMap

variable {numBits : Nat}
variable {m : BitMap numBits}

/- The clear bits in increasing order. -/
def freeBits
    (m : BitMap numBits) :
    List (Fin numBits) :=
  (List.finRange numBits).filter (fun i => !m.bit i)

@[simp] theorem mem_freeBits_iff
    (m : BitMap numBits)
    (i : Fin numBits) :
    i ∈ m.freeBits ↔ m.bit i = false := by
  simp [freeBits]

theorem nodup_freeBits
    (m : BitMap numBits) :
    m.freeBits.Nodup :=
  (List.nodup_finRange numBits).filter _

theorem numClear_eq
    (m : BitMap numBits) :
    m.numClear = m.freeBits.length := by
  rw [numClear, freeBits, List.countP_eq_length_filter]

private theorem find?_eq_head?
    (m : BitMap numBits) :
    (List.finRange numBits).find? (fun i => !m.bit i) =
      m.freeBits.head? := by
  rw [freeBits, List.head?_filter]

/- A full map has nothing to give. -/
theorem find_of_freeBits_eq_nil
    (hFree : m.freeBits = []) :
    m.find = (-1, m) := by
  simp [find, find?_eq_head?, hFree]

/- A search takes the first free bit. -/
theorem find_of_freeBits_eq_cons
    {i : Fin numBits}
    {rest : List (Fin numBits)}
    (hFree : m.freeBits = i :: rest) :
    m.find = ((i.1 : Int), m.setBit i) := by
  simp [find, find?_eq_head?, hFree]

/- Taking the first free bit leaves the others free. -/
theorem freeBits_setBit
    {i : Fin numBits}
    {rest : List (Fin numBits)}
    (hFree : m.freeBits = i :: rest) :
    (m.setBit i).freeBits = rest := by
  have hNodup : (i :: rest).Nodup := by
    rw [← hFree]
    exact m.nodup_freeBits
  have hSplit :
      (m.setBit i).freeBits =
        m.freeBits.filter (fun j => !decide (i = j)) := by
    unfold freeBits
    rw [List.filter_filter]
    congr 1
    funext j
    simp
  rw [hSplit, hFree, List.filter_cons_of_neg (by simp)]
  apply List.filter_eq_self.mpr
  intro j hj
  have hNe : i ≠ j := by
    rintro rfl
    exact (List.nodup_cons.mp hNodup).1 hj
  simpa using hNe

end BitMap

end Nachos
