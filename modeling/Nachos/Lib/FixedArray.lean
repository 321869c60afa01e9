import Mathlib.Data.List.FinRange
import Mathlib.Data.List.Forall2
import Mathlib.Logic.Function.Basic

/-
  Arrays of fixed length with clipped transfers.

  A request for `n` elements at `p` transfers the elements
  that lie in the array: none when it is empty or starts past
  the end, and otherwise all up to the end.

  Main declarations:
    * `FixedArray.read`
    * `FixedArray.write`
    * `FixedArray.write_append`
    * `FixedArray.foldl_update_finRange`
    * `FixedArray.related_set`
-/

------------------------------------
-- Transfers
------------------------------------

namespace FixedArray

variable {α : Type}
variable {p : Nat}
variable {n : Int}

/- Number of elements that a request transfers. -/
def count
    (length : Nat)
    (n : Int)
    (p : Nat) :
    Nat :=
  if n ≤ 0 ∨ p ≥ length then
    0
  else
    min n.toNat (length - p)

/- The elements that a read request returns. -/
def read
    (a : List α)
    (n : Int)
    (p : Nat) :
    List α :=
  (a.drop p).take (count a.length n p)

/- The array after a write request. -/
def write
    (a source : List α)
    (n : Int)
    (p : Nat) :
    List α :=
  a.take p ++
    source.take (count a.length n p) ++
    a.drop (p + count a.length n p)

/- A transfer stays inside of the array. -/
theorem add_count_le
    {length : Nat}
    (hPos : 0 < count length n p) :
    p + count length n p ≤ length := by
  unfold count at hPos ⊢
  split at hPos
  · omega
  · rename_i hInside
    rw [if_neg hInside]
    omega

theorem count_le
    (length : Nat)
    (n : Int)
    (p : Nat) :
    (count length n p : Int) ≤ max n 0 := by
  unfold count
  split <;> omega

theorem count_of_inside
    {length : Nat}
    (hn : 0 < n)
    (hp : p < length) :
    count length n p = min n.toNat (length - p) := by
  unfold count
  rw [if_neg (by omega)]

/- A write replaces the transferred elements only. -/
theorem getElem?_write
    {a : List α}
    (source : List α)
    (hSource : count a.length n p ≤ source.length)
    (hCount : 0 < count a.length n p)
    (q : Nat) :
    (write a source n p)[q]? =
      if p ≤ q ∧
          q < p + count a.length n p then
        source[q - p]?
      else
        a[q]? := by
  have hLe := add_count_le hCount
  have hTake : (a.take p).length = p := by
    rw [List.length_take]
    omega
  have hMiddle :
      (source.take (count a.length n p)).length =
        count a.length n p := by
    rw [List.length_take]
    omega
  unfold write
  by_cases hFront : q < p
  · rw [if_neg (by omega), List.append_assoc,
      List.getElem?_append_left (by omega),
      List.getElem?_take_of_lt hFront]
  · by_cases hBack : q < p + count a.length n p
    · rw [if_pos ⟨by omega, hBack⟩, List.append_assoc,
        List.getElem?_append_right (by omega),
        List.getElem?_append_left (by omega),
        List.getElem?_take_of_lt (by omega), hTake]
    · rw [if_neg (by omega),
        List.getElem?_append_right (by
          rw [List.length_append]
          omega),
        List.getElem?_drop, List.length_append, hTake,
        hMiddle]
      congr 1
      omega

/- A request that transfers nothing changes nothing. -/
theorem write_of_count_eq_zero
    {a source : List α}
    (hCount : count a.length n p = 0) :
    write a source n p = a := by
  simp [write, hCount]

/- A read of `n` elements at `p`, as a part of the list. -/
theorem read_natCast
    (a : List α)
    (n p : Nat) :
    read a n p = (a.drop p).take n := by
  unfold read count
  split
  · rename_i hEmpty
    rw [List.take_zero]
    rcases hEmpty with hNone | hPast
    · rw [show n = 0 by omega, List.take_zero]
    · rw [List.drop_of_length_le hPast, List.take_nil]
  · rw [Int.toNat_natCast, ← List.length_drop]
    rcases Nat.le_total n (a.drop p).length with hLe | hLe
    · rw [Nat.min_eq_left hLe]
    · rw [Nat.min_eq_right hLe, List.take_length,
        List.take_of_length_le hLe]

theorem length_read
    (a : List α)
    (n : Int)
    (p : Nat) :
    (read a n p).length = count a.length n p := by
  unfold read count
  split
  · simp
  · rw [List.length_take, List.length_drop]
    omega

/- A write that fits replaces a part of the list. -/
theorem write_of_inside
    {a source : List α}
    (hInside : p + source.length ≤ a.length) :
    write a source source.length p =
      a.take p ++ source ++
        a.drop (p + source.length) := by
  have hCount : count a.length source.length p =
      source.length := by
    unfold count
    split <;> omega
  rw [write, hCount, List.take_length]

/- Writes one after the other are a single write. -/
theorem write_append
    {a first second : List α}
    (hInside : p + (first ++ second).length ≤ a.length) :
    write (write a first first.length p) second
        second.length (p + first.length) =
      write a (first ++ second) (first ++ second).length
        p := by
  rw [List.length_append] at hInside
  have hTake : (a.take p ++ first).length =
      p + first.length := by
    rw [List.length_append, List.length_take]
    omega
  have hFirst : p + first.length ≤ a.length := by
    omega
  rw [write_of_inside hFirst]
  rw [write_of_inside (by
      simp only [List.length_append, List.length_take,
        List.length_drop]
      omega),
    write_of_inside (by rw [List.length_append]; omega)]
  rw [List.take_left' hTake, ← List.drop_drop,
    List.drop_left' hTake, List.drop_drop,
    List.length_append, List.append_assoc (a.take p),
    Nat.add_assoc]

/- Reads one after the other are a single read. -/
theorem take_append_take
    (b : List α)
    (n m : Nat) :
    b.take n ++ (b.drop (b.take n).length).take m =
      b.take (n + m) := by
  rw [List.take_add, List.length_take]
  rcases Nat.le_total n b.length with hLe | hLe
  · rw [Nat.min_eq_left hLe]
  · rw [Nat.min_eq_right hLe, List.drop_length,
      List.drop_of_length_le hLe]

end FixedArray

------------------------------------
-- Copying
------------------------------------

namespace FixedArray

variable {α ι : Type}

/- What a loop over some indices has copied. -/
theorem foldl_update_apply
    [DecidableEq ι]
    (source target : ι → α)
    (indices : List ι)
    (j : ι) :
    indices.foldl
        (fun a i => Function.update a i (source i)) target j =
      if j ∈ indices then source j else target j := by
  induction indices generalizing target with
  | nil => rfl
  | cons i indices ih =>
      rw [List.foldl_cons, ih]
      by_cases hRest : j ∈ indices
      · rw [if_pos hRest, if_pos (List.mem_cons_of_mem _ hRest)]
      · rw [if_neg hRest]
        by_cases hEq : j = i
        · subst hEq
          rw [Function.update_self, if_pos List.mem_cons_self]
        · rw [Function.update_of_ne hEq, if_neg]
          intro hMem
          rcases List.mem_cons.mp hMem with h | h
          · exact hEq h
          · exact hRest h

/- A loop over all indices copies the array. -/
theorem foldl_update_finRange
    {n : Nat}
    (source target : Fin n → α) :
    (List.finRange n).foldl
        (fun a i => Function.update a i (source i)) target =
      source := by
  funext j
  rw [foldl_update_apply, if_pos (List.mem_finRange j)]

end FixedArray

------------------------------------
-- Arrays with Related Elements
------------------------------------

namespace FixedArray

variable {α β : Type}
variable {R : α → β → Prop}
variable {l : List α}
variable {l' : List β}

theorem related_getElem?
    (hRelated : List.Forall₂ R l l')
    {i : Nat}
    {a : α}
    (hGet : l[i]? = some a) :
    ∃ b, l'[i]? = some b ∧ R a b := by
  induction hRelated generalizing i with
  | nil => cases hGet
  | cons hHead _ ih =>
      cases i with
      | zero =>
          cases hGet
          exact ⟨_, rfl, hHead⟩
      | succ i => exact ih hGet

theorem related_set
    (hRelated : List.Forall₂ R l l')
    (i : Nat)
    {a : α}
    {b : β}
    (hNew : R a b) :
    List.Forall₂ R (l.set i a) (l'.set i b) := by
  induction hRelated generalizing i with
  | nil => exact .nil
  | cons hHead hTail ih =>
      cases i with
      | zero => exact .cons hNew hTail
      | succ i => exact .cons hHead (ih i)

end FixedArray
