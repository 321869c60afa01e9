import Mathlib.Algebra.Ring.Nat
import Nachos.Lib.Bytes

/-
  The order in which a host keeps the bytes of a number.

  A load combines the bytes behind an address, and a store
  puts them there, by the order of the host.  Reversing the
  bytes of a number turns one order into the other.

  Main declarations:
    * `ByteOrder.loadWord`
    * `ByteOrder.storedByte`
    * `ByteOrder.swapShort`
    * `ByteOrder.swapWord`
    * `ByteOrder.littleEndian`
-/

------------------------------------
-- Loads and Stores
------------------------------------

open Bytes

/- Is the first byte the least significant one? -/
inductive ByteOrder where
  | little
  | big
  deriving DecidableEq

namespace ByteOrder

/- Where byte `k` of a number of `n` bytes is. -/
def place
    (order : ByteOrder)
    (n k : Nat) :
    Nat :=
  match order with
  | .little => k
  | .big => n - 1 - k

/- The numbers that a load of two or four bytes gives. -/
def loadShort
    (order : ByteOrder)
    (byte : Nat → Byte) :
    BitVec 16 :=
  byte (order.place 2 1) ++ byte (order.place 2 0)

def loadWord
    (order : ByteOrder)
    (byte : Nat → Byte) :
    BitVec 32 :=
  wordOfBytes fun k => byte (order.place 4 k)

/- What a store of `n` bytes puts at offset `k`. -/
def storedByte
    (order : ByteOrder)
    {w : Nat}
    (value : BitVec w)
    (n k : Nat) :
    Byte :=
  value.extractLsb' (8 * order.place n k) 8

end ByteOrder

------------------------------------
-- Swapping
------------------------------------

namespace ByteOrder

/- Reverse two bytes. -/
def swapShort
    (s : BitVec 16) :
    BitVec 16 :=
  ((s <<< 8) &&& 0xff00#16) ||| ((s >>> 8) &&& 0x00ff#16)

/- Reverse four bytes. -/
def swapWord
    (w : BitVec 32) :
    BitVec 32 :=
  ((w >>> 24) &&& 0x000000ff#32) |||
    ((w >>> 8) &&& 0x0000ff00#32) |||
    ((w <<< 8) &&& 0x00ff0000#32) |||
    ((w <<< 24) &&& 0xff000000#32)

theorem getLsbD_swapShort
    (s : BitVec 16)
    {k i : Nat}
    (hk : k < 2)
    (hi : i < 8) :
    (swapShort s).getLsbD (8 * k + i) =
      s.getLsbD (8 * (1 - k) + i) := by
  have hHigh : ∀ j < 16,
      (0xff00#16).getLsbD j = decide (8 ≤ j) := by
    decide
  have hLow : ∀ j < 16,
      (0x00ff#16).getLsbD j = decide (j < 8) := by
    decide
  have hj : 8 * k + i < 16 := by
    omega
  simp only [swapShort, BitVec.getLsbD_or, BitVec.getLsbD_and,
    BitVec.getLsbD_shiftLeft, BitVec.getLsbD_ushiftRight,
    hHigh _ hj, hLow _ hj]
  have hCases : k = 0 ∨ k = 1 := by
    omega
  rcases hCases with rfl | rfl
  · grind
  · grind

theorem getLsbD_swapWord
    (w : BitVec 32)
    {k i : Nat}
    (hk : k < 4)
    (hi : i < 8) :
    (swapWord w).getLsbD (8 * k + i) =
      w.getLsbD (8 * (3 - k) + i) := by
  have hMask : ∀ j < 32,
      (0x000000ff#32).getLsbD j = decide (j < 8) ∧
      (0x0000ff00#32).getLsbD j = decide (8 ≤ j ∧ j < 16) ∧
      (0x00ff0000#32).getLsbD j = decide (16 ≤ j ∧ j < 24) ∧
      (0xff000000#32).getLsbD j = decide (24 ≤ j) := by
    decide
  rcases hMask (8 * k + i) (by omega) with
    ⟨h0, h1, h2, h3⟩
  simp only [swapWord, BitVec.getLsbD_or, BitVec.getLsbD_and,
    BitVec.getLsbD_shiftLeft, BitVec.getLsbD_ushiftRight,
    h0, h1, h2, h3]
  have hCases : k = 0 ∨ k = 1 ∨ k = 2 ∨ k = 3 := by
    omega
  rcases hCases with rfl | rfl | rfl | rfl
  · grind
  · grind
  · grind
  · grind

theorem wordByte_swapWord
    (w : BitVec 32)
    {k : Nat}
    (hk : k < 4) :
    wordByte (swapWord w) k = wordByte w (3 - k) := by
  apply BitVec.eq_of_getLsbD_eq
  intro i hi
  simp only [wordByte, BitVec.getLsbD_extractLsb', hi,
    decide_true, Bool.true_and]
  exact getLsbD_swapWord w hk hi

/- Swapping what a big-endian host has loaded. -/
theorem swapWord_loadWord
    (byte : Nat → Byte) :
    swapWord (loadWord .big byte) = loadWord .little byte := by
  apply wordImage.injective
  funext k
  have hk := k.2
  change wordByte (swapWord (loadWord .big byte)) k =
    wordByte (loadWord .little byte) k
  rw [wordByte_swapWord _ hk]
  unfold loadWord
  rw [wordByte_wordOfBytes _ ⟨3 - k, by omega⟩,
    wordByte_wordOfBytes]
  simp only [place]
  congr 1
  omega

theorem swapShort_loadShort
    (byte : Nat → Byte) :
    swapShort (loadShort .big byte) =
      loadShort .little byte := by
  apply BitVec.eq_of_getLsbD_eq
  intro j hj
  have hSplit : j = 8 * (j / 8) + j % 8 :=
    (Nat.div_add_mod j 8).symm
  rw [hSplit, getLsbD_swapShort _ (by omega) (by omega)]
  simp only [loadShort, place, BitVec.getLsbD_append]
  have hCases : j / 8 = 0 ∨ j / 8 = 1 := by
    omega
  rcases hCases with hZero | hOne
  · rw [hZero]
    grind
  · rw [hOne]
    grind

/- A big-endian host stores the swapped number. -/
theorem storedByte_swapWord
    (w : BitVec 32)
    {k : Nat}
    (hk : k < 4) :
    storedByte .big (swapWord w) 4 k =
      storedByte .little w 4 k := by
  change wordByte (swapWord w) (4 - 1 - k) = wordByte w k
  rw [wordByte_swapWord w (by omega)]
  congr 1
  omega

theorem storedByte_swapShort
    (s : BitVec 16)
    {k : Nat}
    (hk : k < 2) :
    storedByte .big (swapShort s) 2 k =
      storedByte .little s 2 k := by
  apply BitVec.eq_of_getLsbD_eq
  intro i hi
  simp only [storedByte, place, BitVec.getLsbD_extractLsb', hi,
    decide_true, Bool.true_and]
  rw [getLsbD_swapShort s (by omega) hi]
  congr 2
  omega

------------------------------------
-- Numbers
------------------------------------

/- The number with the given bytes, the least first. -/
def littleEndian
    (byte : Nat → Byte) :
    Nat → Nat
| 0 => 0
| n + 1 =>
    (byte 0).toNat +
      2 ^ 8 * littleEndian (fun k => byte (k + 1)) n

theorem toNat_append
    {n m : Nat}
    (x : BitVec n)
    (y : BitVec m) :
    (x ++ y).toNat = x.toNat * 2 ^ m + y.toNat := by
  rw [BitVec.toNat_append, ← Nat.shiftLeft_add_eq_or_of_lt y.isLt,
    Nat.shiftLeft_eq]

theorem toNat_loadWord
    (byte : Nat → Byte) :
    (loadWord .little byte).toNat = littleEndian byte 4 := by
  change (byte 3 ++ byte 2 ++ byte 1 ++ byte 0).toNat = _
  rw [toNat_append, toNat_append, toNat_append]
  simp only [littleEndian, Nat.reduceAdd]
  omega

theorem toNat_loadShort
    (byte : Nat → Byte) :
    (loadShort .little byte).toNat = littleEndian byte 2 := by
  change (byte 1 ++ byte 0).toNat = _
  rw [toNat_append]
  simp only [littleEndian, Nat.reduceAdd]
  omega

end ByteOrder
