import Mathlib.Algebra.BigOperators.Group.Finset.Basic
import Mathlib.Algebra.BigOperators.Group.Finset.Piecewise
import Mathlib.Algebra.GroupWithZero.Nat
import Mathlib.Order.Interval.Finset.Nat

/-
  Rows of ranges that tile an initial range of the naturals.

  Every element of a list stands for a range, given by its
  start and its size.  The ranges tile `[0, total)` if every
  number below `total` is in exactly one of them, and no
  other number is in any.

  Main declarations:
    * `Tiling.Tiles.add_le`
    * `Tiling.Tiles.eq_of_covers`
    * `Tiling.Tiles.sum_size`
    * `Tiling.EndToEnd`
    * `Tiling.exists_endToEnd`
-/

------------------------------------
-- Ranges
------------------------------------

namespace Tiling

variable {α : Type}

/- Is the number in the range of the element? -/
def Covers
    (start size : α → Nat)
    (x : α)
    (a : Nat) : Prop :=
  start x ≤ a ∧ a < start x + size x

instance
    (start size : α → Nat)
    (x : α)
    (a : Nat) :
    Decidable (Covers start size x a) :=
  inferInstanceAs (Decidable (_ ∧ _))

/- The elements of a list whose range has the number. -/
def coverage
    (start size : α → Nat)
    (l : List α)
    (a : Nat) :
    Nat :=
  l.countP fun x => decide (Covers start size x a)

def Tiles
    (start size : α → Nat)
    (l : List α)
    (total : Nat) : Prop :=
  ∀ a, coverage start size l a = if a < total then 1 else 0

variable {start size : α → Nat}
variable {l : List α}
variable {total : Nat}

/- A range that is not empty stays below the total. -/
theorem Tiles.add_le
    (hTiles : Tiles start size l total)
    {x : α}
    (hx : x ∈ l)
    (hSize : 0 < size x) :
    start x + size x ≤ total := by
  by_contra hOut
  have hLast : Covers start size x
      (start x + size x - 1) := by
    unfold Covers
    omega
  have hPos : 0 < coverage start size l
      (start x + size x - 1) :=
    List.countP_pos_iff.mpr
      ⟨x, hx, decide_eq_true hLast⟩
  rw [hTiles, if_neg (by omega)] at hPos
  exact absurd hPos (Nat.lt_irrefl 0)

/- No number is in two ranges. -/
theorem Tiles.eq_of_covers
    (hTiles : Tiles start size l total)
    {x y : α}
    {a : Nat}
    (hx : x ∈ l)
    (hy : y ∈ l)
    (hxa : Covers start size x a)
    (hya : Covers start size y a) :
    x = y := by
  have hLe : (l.filter fun x =>
      decide (Covers start size x a)).length ≤ 1 := by
    rw [← List.countP_eq_length_filter]
    have hCount := hTiles a
    unfold coverage at hCount
    rw [hCount]
    split
    · exact Nat.le_refl 1
    · exact Nat.zero_le 1
  have hx' : x ∈ l.filter fun x =>
      decide (Covers start size x a) :=
    List.mem_filter.mpr ⟨hx, decide_eq_true hxa⟩
  have hy' : y ∈ l.filter fun x =>
      decide (Covers start size x a) :=
    List.mem_filter.mpr ⟨hy, decide_eq_true hya⟩
  rcases List.getElem_of_mem hx' with ⟨i, hi, rfl⟩
  rcases List.getElem_of_mem hy' with ⟨j, hj, rfl⟩
  have hEq : i = j := by
    omega
  subst hEq
  rfl

end Tiling

------------------------------------
-- The Sum of the Sizes
------------------------------------

namespace Tiling

variable {α : Type}
variable {start size : α → Nat}
variable {total : Nat}

theorem sum_covers
    {x : α}
    (hInside : size x = 0 ∨ start x + size x ≤ total) :
    (∑ a ∈ Finset.range total,
      if Covers start size x a then 1 else 0) = size x := by
  have hRange : (Finset.range total).filter
        (Covers start size x) =
      if size x = 0 then ∅
      else Finset.Ico (start x) (start x + size x) := by
    ext a
    split
    · simp only [Finset.mem_filter, Finset.mem_range, Covers,
        Finset.notMem_empty, iff_false]
      omega
    · simp only [Finset.mem_filter, Finset.mem_range, Covers,
        Finset.mem_Ico]
      omega
  rw [← Finset.card_filter, hRange]
  split
  · rename_i hZero
    rw [hZero, Finset.card_empty]
  · rw [Nat.card_Ico, Nat.add_sub_cancel_left]

/- Counting numbers by range or ranges by number. -/
theorem sum_size_eq_sum_coverage
    {l : List α}
    (hInside :
      ∀ x ∈ l, size x = 0 ∨ start x + size x ≤ total) :
    (l.map size).sum =
      ∑ a ∈ Finset.range total, coverage start size l a := by
  induction l with
  | nil =>
      simp only [coverage, List.countP_nil, List.map_nil,
        List.sum_nil, Finset.sum_const_zero]
  | cons x l ih =>
      have hRest := ih (fun y hy =>
        hInside y (List.mem_cons_of_mem x hy))
      have hHead := sum_covers (hInside x List.mem_cons_self)
      simp only [coverage, List.countP_cons,
        Finset.sum_add_distrib, decide_eq_true_eq]
      rw [List.map_cons, List.sum_cons, hHead, hRest]
      simp only [coverage]
      exact Nat.add_comm _ _

theorem Tiles.sum_size
    {l : List α}
    (hTiles : Tiles start size l total) :
    (l.map size).sum = total := by
  have hInside : ∀ x ∈ l,
      size x = 0 ∨ start x + size x ≤ total := by
    intro x hx
    rcases Nat.eq_zero_or_pos (size x) with hZero | hPos
    · exact Or.inl hZero
    · exact Or.inr (hTiles.add_le hx hPos)
  rw [sum_size_eq_sum_coverage hInside,
    Finset.sum_congr rfl fun a ha => (hTiles a).trans
      (if_pos (Finset.mem_range.mp ha)),
    ← Finset.card_eq_sum_ones, Finset.card_range]

end Tiling

------------------------------------
-- Ranges End to End
------------------------------------

namespace Tiling

variable {α : Type}
variable {start size : α → Nat}
variable {x : α}
variable {l : List α}
variable {b : Nat}

/- Each range starts where the one before it ends. -/
def EndToEnd
    (start size : α → Nat) :
    Nat → List α → Prop
| _, [] => True
| b, x :: l =>
    start x = b ∧ EndToEnd start size (b + size x) l

/- The ranges together are `[b, b + n)`. -/
def Fills
    (start size : α → Nat)
    (l : List α)
    (b n : Nat) : Prop :=
  ∀ a, (b ≤ a ∧ a < b + n) ↔
    ∃ x ∈ l, Covers start size x a

theorem EndToEnd.coverage_eq
    (hRow : EndToEnd start size b l)
    (a : Nat) :
    coverage start size l a =
      if b ≤ a ∧ a < b + (l.map size).sum then 1 else 0 := by
  induction l generalizing b with
  | nil =>
      rw [List.map_nil, List.sum_nil, if_neg (by omega)]
      rfl
  | cons x l ih =>
      have hRest := ih hRow.2
      have hFirst : Covers start size x a ↔
          b ≤ a ∧ a < b + size x := by
        rw [Covers, hRow.1]
      unfold coverage at hRest ⊢
      rw [List.countP_cons, hRest, List.map_cons,
        List.sum_cons]
      simp only [decide_eq_true_eq, hFirst]
      split_ifs
      all_goals omega

theorem EndToEnd.tiles
    (hRow : EndToEnd start size 0 l) :
    Tiles start size l (l.map size).sum := by
  intro a
  simp only [hRow.coverage_eq, Nat.zero_le, true_and,
    Nat.zero_add]

/- Ranges cover at most as many numbers as they have. -/
theorem card_le_sum_size
    {s : Finset Nat}
    (hCovered : ∀ a ∈ s, ∃ x ∈ l, Covers start size x a) :
    s.card ≤ (l.map size).sum := by
  induction l generalizing s with
  | nil =>
      rw [List.map_nil, List.sum_nil, Nat.le_zero,
        Finset.card_eq_zero]
      apply Finset.eq_empty_of_forall_notMem
      intro a ha
      rcases hCovered a ha with ⟨x, hx, _⟩
      exact absurd hx List.not_mem_nil
  | cons x l ih =>
      have hSplit := Finset.card_filter_add_card_filter_not
        (s := s) (p := Covers start size x)
      have hFirst : (s.filter (Covers start size x)).card ≤
          size x := by
        have hSubset : s.filter (Covers start size x) ⊆
            Finset.Ico (start x) (start x + size x) :=
          fun a ha => Finset.mem_Ico.mpr
            (Finset.mem_filter.mp ha).2
        have hLe := Finset.card_le_card hSubset
        rwa [Nat.card_Ico, Nat.add_sub_cancel_left] at hLe
      have hRest := ih
        (s := s.filter fun a => ¬ Covers start size x a)
        fun a ha => by
          rcases Finset.mem_filter.mp ha with ⟨ha, hNot⟩
          rcases hCovered a ha with ⟨y, hy, hCovers⟩
          rcases List.mem_cons.mp hy with rfl | hy
          · exact absurd hCovers hNot
          · exact ⟨y, hy, hCovers⟩
      rw [List.map_cons, List.sum_cons]
      omega

/- If no room is wasted, nothing overlaps the first range. -/
theorem Fills.tail
    (hFills :
      Fills start size (x :: l) b ((x :: l).map size).sum)
    (hStart : start x = b) :
    Fills start size l (b + size x) (l.map size).sum := by
  rw [List.map_cons, List.sum_cons] at hFills
  have hRest : ∀ a, b + size x ≤ a →
      a < b + size x + (l.map size).sum →
      ∃ y ∈ l, Covers start size y a := by
    intro a hLow hHigh
    rcases (hFills a).mp (by omega) with ⟨y, hy, hCovers⟩
    rcases List.mem_cons.mp hy with rfl | hy
    · unfold Covers at hCovers
      omega
    · exact ⟨y, hy, hCovers⟩
  intro a
  refine ⟨fun hIn => hRest a hIn.1 hIn.2, ?_⟩
  rintro ⟨y, hy, hCovers⟩
  have hIn := (hFills a).mpr
    ⟨y, List.mem_cons_of_mem x hy, hCovers⟩
  refine ⟨?_, by omega⟩
  by_contra hLow
  -- the rest would cover one number too many
  have hCard := card_le_sum_size (l := l)
    (s := insert a (Finset.Ico (b + size x)
      (b + size x + (l.map size).sum))) fun c hc => by
        rcases Finset.mem_insert.mp hc with rfl | hc
        · exact ⟨y, hy, hCovers⟩
        · rw [Finset.mem_Ico] at hc
          exact hRest c hc.1 hc.2
  have hNew : a ∉ Finset.Ico (b + size x)
      (b + size x + (l.map size).sum) := by
    rw [Finset.mem_Ico]
    omega
  rw [Finset.card_insert_of_notMem hNew, Nat.card_Ico] at hCard
  omega

theorem Fills.perm
    {l' : List α}
    {n : Nat}
    (hFills : Fills start size l b n)
    (hPerm : l.Perm l') :
    Fills start size l' b n := by
  intro a
  rw [hFills a]
  simp only [hPerm.mem_iff]

end Tiling
