import Mathlib.Logic.Equiv.Fin.Basic
import Mathlib.Tactic.FinCases

/-
  Byte images of fixed-size data.

  A record that occupies `n` bytes is described by an
  equivalence with `Fin n → Byte`.  Words are stored least
  significant byte first, and arrays store their elements
  one after the other.

  Main declarations:
    * `Bytes.arrayImage`
    * `Bytes.pairImage`
    * `Bytes.overlay`
    * `Bytes.copy`
    * `Bytes.fetch`
-/

------------------------------------
-- Words
------------------------------------

namespace Bytes

abbrev Byte :=
  BitVec 8

/- Byte `k` of a word, least significant first. -/
def wordByte
    (w : BitVec 32)
    (k : Nat) :
    Byte :=
  w.extractLsb' (8 * k) 8

/- The word with the given bytes, least significant first. -/
def wordOfBytes
    (b : Fin 4 → Byte) :
    BitVec 32 :=
  (b 3 ++ b 2 ++ b 1 ++ b 0 : BitVec 32)

/- Splitting a word and joining its bytes is the identity. -/
theorem wordOfBytes_wordByte
    (w : BitVec 32) :
    wordOfBytes (fun k => wordByte w k) = w := by
  apply BitVec.eq_of_getLsbD_eq
  intro i hi
  simp only [wordOfBytes, wordByte, BitVec.getLsbD_append,
    BitVec.getLsbD_extractLsb']
  have hCases : i < 8 ∨ (8 ≤ i ∧ i < 16) ∨
      (16 ≤ i ∧ i < 24) ∨ 24 ≤ i := by
    omega
  rcases hCases with h | ⟨h, h'⟩ | ⟨h, h'⟩ | h
  · simp [h]
  · simp [show ¬ i < 8 by omega, show i - 8 < 8 by omega,
      show 8 + (i - 8) = i by omega]
  · simp [show ¬ i < 8 by omega, show ¬ i - 8 < 8 by omega,
      show i - 8 - 8 < 8 by omega,
      show 16 + (i - 8 - 8) = i by omega]
  · simp [show ¬ i < 8 by omega, show ¬ i - 8 < 8 by omega,
      show ¬ i - 8 - 8 < 8 by omega,
      show i - 8 - 8 - 8 < 8 by omega,
      show 24 + (i - 8 - 8 - 8) = i by omega]

/- Joining bytes and splitting again is the identity. -/
theorem wordByte_wordOfBytes
    (b : Fin 4 → Byte)
    (k : Fin 4) :
    wordByte (wordOfBytes b) k = b k := by
  apply BitVec.eq_of_getLsbD_eq
  intro i hi
  simp only [wordOfBytes, wordByte, BitVec.getLsbD_append,
    BitVec.getLsbD_extractLsb', hi, decide_true,
    Bool.true_and]
  match k with
  | 0 => simp [hi]
  | 1 =>
      simp [show 8 + i - 8 = i by omega, hi]
  | 2 =>
      simp [show ¬ 16 + i < 8 by omega,
        show 16 + i - 8 - 8 = i by omega,
        show ¬ 16 + i - 8 < 8 by omega, hi]
  | 3 =>
      simp [show ¬ 24 + i < 8 by omega,
        show 24 + i - 8 - 8 - 8 = i by omega,
        show ¬ 24 + i - 8 < 8 by omega,
        show ¬ 24 + i - 8 - 8 < 8 by omega, hi]

/- The four-byte image of a word. -/
def wordImage :
    BitVec 32 ≃ (Fin 4 → Byte) where
  toFun := fun w k => wordByte w k
  invFun := wordOfBytes
  left_inv := wordOfBytes_wordByte
  right_inv := fun b => funext (wordByte_wordOfBytes b)

------------------------------------
-- Arrays
------------------------------------

variable {α : Type} {n : Nat}

/-
  The image of an array of `k` elements that occupy `n`
  bytes each.
-/
def arrayImage
    (image : α ≃ (Fin n → Byte))
    (k : Nat) :
    (Fin k → α) ≃ (Fin (k * n) → Byte) :=
  (Equiv.piCongrRight fun _ => image).trans
    ((Equiv.curry (Fin k) (Fin n) Byte).symm.trans
      (Equiv.arrowCongr finProdFinEquiv (Equiv.refl Byte)))

/- Byte `j` of element `i`. -/
theorem arrayImage_apply
    (image : α ≃ (Fin n → Byte))
    {k : Nat}
    (elements : Fin k → α)
    (i : Fin k)
    (j : Fin n) :
    arrayImage image k elements (finProdFinEquiv (i, j)) =
      image (elements i) j := by
  simp [arrayImage, Equiv.arrowCongr]

/- A single byte is its own image. -/
def byteImage : Byte ≃ (Fin 1 → Byte) :=
  (Equiv.funUnique (Fin 1) Byte).symm

/- The image of two values that are stored side by side. -/
def pairImage
    {β : Type}
    {m : Nat}
    (left : α ≃ (Fin n → Byte))
    (right : β ≃ (Fin m → Byte)) :
    α × β ≃ (Fin (n + m) → Byte) :=
  (left.prodCongr right).trans (Fin.appendEquiv n m)

theorem pairImage_left
    {β : Type}
    {m : Nat}
    (left : α ≃ (Fin n → Byte))
    (right : β ≃ (Fin m → Byte))
    (pair : α × β)
    (j : Fin n) :
    pairImage left right pair (Fin.castAdd m j) =
      left pair.1 j :=
  Fin.append_left ..

theorem pairImage_right
    {β : Type}
    {m : Nat}
    (left : α ≃ (Fin n → Byte))
    (right : β ≃ (Fin m → Byte))
    (pair : α × β)
    (j : Fin m) :
    pairImage left right pair (Fin.natAdd n j) =
      right pair.2 j :=
  Fin.append_right ..

end Bytes

------------------------------------
-- Partial Overwrites
------------------------------------

namespace Bytes

variable {n : Nat}

/-
  Overwrite the front of a block of memory by a list of
  bytes; bytes past the end of the list keep their value.
-/
def overlay
    (memory : Fin n → Byte)
    (bytes : List Byte) :
    Fin n → Byte :=
  fun i => bytes.getD i (memory i)

/- Overwriting a block by all bytes of another copies it. -/
@[simp] theorem overlay_ofFn
    (memory source : Fin n → Byte) :
    overlay memory (List.ofFn source) = source := by
  funext i
  simp [overlay, List.getD]

end Bytes

------------------------------------
-- Copies Between Blocks
------------------------------------

namespace Bytes

variable {n m : Nat}

/- A byte of a block; zero outside of the block. -/
def byteAt
    (block : Fin n → Byte)
    (i : Nat) :
    Byte :=
  if h : i < n then block ⟨i, h⟩ else 0

@[simp] theorem byteAt_val
    (block : Fin n → Byte)
    (i : Fin n) :
    byteAt block i = block i := by
  simp [byteAt]

theorem byteAt_update
    (block : Fin n → Byte)
    (i : Fin n)
    (b : Byte)
    (k : Nat) :
    byteAt (Function.update block i b) k =
      if k = i.1 then b else byteAt block k := by
  unfold byteAt
  by_cases hk : k < n
  · simp only [hk, dif_pos, Function.update_apply,
      Fin.ext_iff]
  · rw [dif_neg hk, dif_neg hk, if_neg]
    intro hEq
    exact hk (hEq ▸ i.2)

/-
  Copy `length` bytes from position `p` of one block to
  position `q` of another; `none` if they do not fit.
-/
def copy
    (source : Fin n → Byte)
    (p : Nat)
    (target : Fin m → Byte)
    (q length : Nat) :
    Option (Fin m → Byte) :=
  if p + length ≤ n ∧ q + length ≤ m then
    some fun i =>
      if q ≤ i.1 ∧ i.1 < q + length then
        byteAt source (p + (i.1 - q))
      else
        target i
  else
    none

theorem exists_copy
    (source : Fin n → Byte)
    {p : Nat}
    (target : Fin m → Byte)
    {q length : Nat}
    (hSource : p + length ≤ n)
    (hTarget : q + length ≤ m) :
    ∃ block, copy source p target q length = some block := by
  unfold copy
  rw [if_pos ⟨hSource, hTarget⟩]
  exact ⟨_, rfl⟩

/- The bytes after a copy. -/
theorem byteAt_copy
    {source : Fin n → Byte}
    {p : Nat}
    {target block : Fin m → Byte}
    {q length : Nat}
    (hCopy : copy source p target q length = some block)
    (i : Nat) :
    byteAt block i =
      if q ≤ i ∧ i < q + length then
        byteAt source (p + (i - q))
      else
        byteAt target i := by
  unfold copy at hCopy
  split at hCopy
  · rename_i hFits
    cases hCopy
    by_cases hi : i < m
    · simp only [byteAt, hi, dif_pos]
    · rw [if_neg (by omega)]
      simp only [byteAt, hi, dif_neg, not_false_eq_true]
  · cases hCopy

/- The value that is stored at a position of a block. -/
def fetch
    {α : Type}
    (image : α ≃ (Fin m → Byte))
    (block : Fin n → Byte)
    (p : Nat) :
    α :=
  image.symm fun k => byteAt block (p + k)

theorem fetch_congr
    {α : Type}
    {l : Nat}
    (image : α ≃ (Fin m → Byte))
    {block : Fin n → Byte}
    {block' : Fin l → Byte}
    {p p' : Nat}
    (hSame :
      ∀ k, k < m →
        byteAt block (p + k) = byteAt block' (p' + k)) :
    fetch image block p = fetch image block' p' := by
  unfold fetch
  congr 1
  funext k
  exact hSame k k.2

/- What was stored is fetched. -/
theorem fetch_eq
    {α : Type}
    (image : α ≃ (Fin m → Byte))
    {block : Fin n → Byte}
    {p : Nat}
    {x : α}
    (hSame :
      ∀ k, k < m →
        byteAt block (p + k) = byteAt (image x) k) :
    fetch image block p = x := by
  unfold fetch
  rw [Equiv.symm_apply_eq]
  funext k
  rw [hSame k k.2, byteAt_val]

/- The bytes of a value that was fetched. -/
theorem byteAt_image_fetch
    {α : Type}
    (image : α ≃ (Fin m → Byte))
    (block : Fin n → Byte)
    (p : Nat)
    {k : Nat}
    (hk : k < m) :
    byteAt (image (fetch image block p)) k =
      byteAt block (p + k) := by
  unfold fetch
  rw [Equiv.apply_symm_apply, byteAt, dif_pos hk]

/- The low byte of a word that fits in it. -/
theorem toNat_wordByte_zero
    {w : BitVec 32}
    (hw : w.toNat < 256) :
    (wordByte w 0).toNat = w.toNat := by
  unfold wordByte
  rw [BitVec.extractLsb'_toNat, Nat.mul_zero,
    Nat.shiftRight_zero]
  exact Nat.mod_eq_of_lt hw

end Bytes
