import Mathlib.Data.List.Basic

/-
  Histories: lists that grow at their end.

  A property of a history is often that each of its entries
  fits what came before, or it is about the part of the
  history that concerns some object.

  Main declarations:
    * `History.each_concat`
    * `History.Each.of_filter`
    * `History.foldl_filter_eq`
    * `History.latest`
    * `History.latest_concat`
-/

------------------------------------
-- Entries and What Came Before
------------------------------------

namespace History

variable {α β : Type}

/- Every entry fits the entries before it. -/
def Each
    (P : List α → α → Prop)
    (l : List α) : Prop :=
  ∀ earlier x later, l = earlier ++ x :: later → P earlier x

variable {P : List α → α → Prop}
variable {l : List α}

theorem each_nil :
    Each P [] := by
  intro earlier x later hEq
  exact absurd hEq.symm
    (List.append_ne_nil_of_right_ne_nil _
      (List.cons_ne_nil _ _))

/- A new entry only has to fit the history so far. -/
theorem each_concat
    {a : α} :
    Each P (l ++ [a]) ↔ Each P l ∧ P l a := by
  constructor
  · intro hEach
    refine ⟨?_, hEach l a [] rfl⟩
    intro earlier x later hEq
    apply hEach earlier x (later ++ [a])
    rw [hEq, List.append_assoc, List.cons_append]
  · rintro ⟨hEach, ha⟩ earlier x later hEq
    rcases List.eq_nil_or_concat later with
      rfl | ⟨later', y, rfl⟩
    · rcases List.append_inj' hEq rfl with ⟨hl, hx⟩
      cases hx
      rw [← hl]
      exact ha
    · have hEq' : l ++ [a] =
          (earlier ++ x :: later') ++ [y] := by
        rw [hEq, List.concat_eq_append, List.append_assoc,
          List.cons_append]
      exact hEach earlier x later'
        (List.append_inj' hEq' rfl).1

/- What holds in a part of the history holds in all of it. -/
theorem Each.of_filter
    {p : α → Bool}
    (hEach : Each P (l.filter p)) :
    Each (fun earlier x =>
      p x = true → P (earlier.filter p) x) l := by
  intro earlier x later hEq hx
  apply hEach (earlier.filter p) x (later.filter p)
  rw [hEq, List.filter_append, List.filter_cons_of_pos hx]

/- Entries that change nothing may be left out. -/
theorem foldl_filter_eq
    {p : α → Bool}
    {f : β → α → β}
    (hSkip : ∀ b x, p x = false → f b x = b)
    (l : List α)
    (b : β) :
    (l.filter p).foldl f b = l.foldl f b := by
  induction l generalizing b with
  | nil => rfl
  | cons x l ih =>
      cases hx : p x with
      | true =>
          rw [List.filter_cons_of_pos hx]
          exact ih (f b x)
      | false =>
          rw [List.filter_cons_of_neg (by rw [hx]; decide),
            List.foldl_cons, hSkip b x hx]
          exact ih b

end History

------------------------------------
-- Latest Values
------------------------------------

namespace History

variable {κ ν : Type}
variable [DecidableEq κ]

/-
  The value that a key was given last, in a history of keys
  that were given a value or lost it.
-/
def latest
    (log : List (κ × Option ν))
    (k : κ) :
    Option ν :=
  log.foldl
    (fun found entry => if entry.1 = k then entry.2 else found)
    none

theorem latest_concat
    (log : List (κ × Option ν))
    (entry : κ × Option ν)
    (k : κ) :
    latest (log ++ [entry]) k =
      if entry.1 = k then entry.2 else latest log k := by
  unfold latest
  rw [List.foldl_append, List.foldl_cons, List.foldl_nil]

end History
