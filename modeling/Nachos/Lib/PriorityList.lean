import Mathlib.Data.List.Sort

/-
  Lists that are kept sorted by an integer key.  A new item
  goes behind the items with the same key.

  Main declarations:
    * `PriorityList.Sorted`
    * `PriorityList.sorted_insert`
    * `PriorityList.filter_insert`
    * `PriorityList.filter_key_insert`
    * `PriorityList.map_insert`
-/

namespace PriorityList

variable {α : Type}
variable {key : α → Int}
variable {l : List α}

/- Put an item before the first one with a greater key. -/
def insert
    (key : α → Int)
    (a : α)
    (l : List α) :
    List α :=
  l.orderedInsert (fun a b => key a < key b) a

/- Keys do not decrease along the list. -/
def Sorted
    (key : α → Int)
    (l : List α) : Prop :=
  l.Pairwise fun a b => key a ≤ key b

theorem perm_insert
    (key : α → Int)
    (a : α)
    (l : List α) :
    (insert key a l).Perm (a :: l) :=
  List.perm_orderedInsert _ a l

theorem mem_insert
    {a b : α}
    {l : List α} :
    b ∈ insert key a l ↔ b = a ∨ b ∈ l := by
  rw [(perm_insert key a l).mem_iff, List.mem_cons]

theorem sorted_insert
    (a : α)
    (hSorted : Sorted key l) :
    Sorted key (insert key a l) := by
  induction l with
  | nil => exact List.pairwise_singleton _ a
  | cons b l ih =>
      rcases List.pairwise_cons.mp hSorted with ⟨hHead, hTail⟩
      rw [insert, List.orderedInsert_cons]
      split
      · rename_i hLess
        refine List.pairwise_cons.mpr ⟨?_, hSorted⟩
        intro c hc
        rcases List.mem_cons.mp hc with rfl | hc
        · exact hLess.le
        · exact hLess.le.trans (hHead c hc)
      · rename_i hNot
        refine List.pairwise_cons.mpr ⟨?_, ih hTail⟩
        intro c hc
        rcases mem_insert.mp hc with rfl | hc
        · exact not_lt.mp hNot
        · exact hHead c hc

theorem insert_cons_of_lt
    {a b : α}
    (hLess : key a < key b)
    (l : List α) :
    insert key a (b :: l) = a :: b :: l := by
  rw [insert, List.orderedInsert_cons, if_pos hLess]

theorem insert_cons_of_le
    {a b : α}
    (hLe : key b ≤ key a)
    (l : List α) :
    insert key a (b :: l) = b :: insert key a l := by
  rw [insert, List.orderedInsert_cons,
    if_neg (not_lt.mpr hLe), insert]

/- Behind keys that are not greater an item comes last. -/
theorem insert_of_forall_le
    {a : α}
    (hLe : ∀ b ∈ l, key b ≤ key a) :
    insert key a l = l ++ [a] := by
  induction l with
  | nil => rfl
  | cons b l ih =>
      rcases List.forall_mem_cons.mp hLe with ⟨hHead, hTail⟩
      rw [insert_cons_of_le hHead, ih hTail,
        List.cons_append]

/- Before a greater key an item is not the last one. -/
theorem getLast?_insert
    {a : α}
    (hGreater : ∃ b ∈ l, key a < key b) :
    (insert key a l).getLast? = l.getLast? := by
  induction l with
  | nil =>
      rcases hGreater with ⟨_, hMem, _⟩
      cases hMem
  | cons b l ih =>
      by_cases hLess : key a < key b
      · rw [insert_cons_of_lt hLess, List.getLast?_cons_cons]
      · have hTail : ∃ b ∈ l, key a < key b := by
          rcases hGreater with ⟨c, hMem, hc⟩
          rcases List.mem_cons.mp hMem with rfl | hMem
          · exact absurd hc hLess
          · exact ⟨c, hMem, hc⟩
        rw [insert_cons_of_le (not_lt.mp hLess),
          List.getLast?_cons, ih hTail, List.getLast?_cons]

/- What decides the place of an item is its key only. -/
theorem map_insert
    {β : Type}
    (key : β → Int)
    (f : α → β)
    (a : α)
    (l : List α) :
    (insert (key ∘ f) a l).map f =
      insert key (f a) (l.map f) := by
  induction l with
  | nil => rfl
  | cons b l ih =>
      by_cases hLess : (key ∘ f) a < (key ∘ f) b
      · have hMapped : key (f a) < key (f b) := hLess
        rw [insert_cons_of_lt hLess, List.map_cons,
          List.map_cons, insert_cons_of_lt hMapped]
      · have hLe := not_lt.mp hLess
        have hMapped : key (f b) ≤ key (f a) := hLe
        rw [insert_cons_of_le hLe, List.map_cons,
          List.map_cons, insert_cons_of_le hMapped, ih]

/- A new item is not seen by a filter that drops it. -/
theorem filter_insert
    {keep : α → Bool}
    {a : α}
    (hDrop : keep a = false)
    (l : List α) :
    (insert key a l).filter keep = l.filter keep := by
  have hNot : ¬ keep a = true := by simp [hDrop]
  induction l with
  | nil => exact List.filter_cons_of_neg hNot
  | cons b l ih =>
      rw [insert, List.orderedInsert_cons]
      split
      · exact List.filter_cons_of_neg hNot
      · rw [List.filter_cons, List.filter_cons]
        rw [insert] at ih
        rw [ih]

/- Behind a greater head there is no equal key. -/
theorem filter_eq_nil_of_lt_head
    {b : α}
    (hSorted : Sorted key (b :: l))
    {k : Int}
    (hLess : k < key b) :
    (b :: l).filter (fun c => key c = k) = [] := by
  apply List.filter_eq_nil_iff.mpr
  intro c hc
  have hLe : key b ≤ key c := by
    rcases List.mem_cons.mp hc with rfl | hc
    · exact le_rfl
    · exact (List.pairwise_cons.mp hSorted).1 c hc
  simpa using (hLess.trans_le hLe).ne'

/- Among the items with one key a new one is the last. -/
theorem filter_key_insert
    (a : α)
    (hSorted : Sorted key l)
    (k : Int) :
    (insert key a l).filter (fun b => key b = k) =
      (l ++ [a]).filter (fun b => key b = k) := by
  induction l with
  | nil => rfl
  | cons b l ih =>
      by_cases hLess : key a < key b
      · rw [insert_cons_of_lt hLess, List.filter_append]
        by_cases hKey : key a = k
        · have hNone :=
            filter_eq_nil_of_lt_head hSorted (hKey ▸ hLess)
          rw [List.filter_cons_of_pos (by simpa using hKey),
            hNone, List.nil_append,
            List.filter_cons_of_pos (by simpa using hKey),
            List.filter_nil]
        · have hDrop : [a].filter (fun b => key b = k) = [] :=
            List.filter_cons_of_neg (by simpa using hKey)
          rw [hDrop, List.append_nil]
          exact List.filter_cons_of_neg (by simpa using hKey)
      · rw [insert_cons_of_le (not_lt.mp hLess),
          List.cons_append, List.filter_cons,
          List.filter_cons,
          ih (List.pairwise_cons.mp hSorted).2]

end PriorityList
