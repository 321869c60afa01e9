import Mathlib.Data.List.Nodup
import Mathlib.Data.List.Pairwise
import Mathlib.Data.List.Perm.Basic
import Mathlib.Logic.Function.Basic

/-
  Cells that are tracked by their owners.

  Every owner holds a list of cells.  A marking tracks the
  owners when no cell is held twice and the marked cells are
  exactly the held ones.

  Main declarations:
    * `Ownership.Tracks.release`
    * `Ownership.Tracks.arrive`
    * `Ownership.Tracks.depart`
    * `Ownership.not_mem_of_ne`
    * `Ownership.head_not_mem`
-/

------------------------------------
-- Markings
------------------------------------

namespace Ownership

variable {α ι : Type}
variable {marked : α → Prop}

structure Tracks
    (marked : α → Prop)
    (held : List α) : Prop where
  nodup : held.Nodup
  marked_iff : ∀ a, marked a ↔ a ∈ held

/- The order of the cells does not matter. -/
theorem Tracks.perm
    {held held' : List α}
    (hTracks : Tracks marked held)
    (hPerm : held.Perm held') :
    Tracks marked held' where
  nodup := hPerm.nodup_iff.mp hTracks.nodup
  marked_iff := fun a => by
    rw [hTracks.marked_iff, hPerm.mem_iff]

theorem Tracks.congr
    {marked marked' : α → Prop}
    {held : List α}
    (hTracks : Tracks marked held)
    (hIff : ∀ a, marked' a ↔ marked a) :
    Tracks marked' held where
  nodup := hTracks.nodup
  marked_iff := fun a => by
    rw [hIff, hTracks.marked_iff]

/- Unmarked cells may be taken by a new owner. -/
theorem Tracks.acquire
    {held fresh : List α}
    (hTracks : Tracks marked held)
    (hNodup : fresh.Nodup)
    (hFree : ∀ a ∈ fresh, ¬ marked a) :
    Tracks (fun a => a ∈ fresh ∨ marked a)
      (fresh ++ held) where
  nodup := by
    rw [List.nodup_append']
    refine ⟨hNodup, hTracks.nodup, ?_⟩
    intro a hFresh hHeld
    exact hFree a hFresh ((hTracks.marked_iff a).mpr hHeld)
  marked_iff := fun a => by
    rw [List.mem_append, hTracks.marked_iff]

/- The cells of an owner may be given back. -/
theorem Tracks.release
    {freed held : List α}
    (hTracks : Tracks marked (freed ++ held)) :
    Tracks (fun a => a ∉ freed ∧ marked a) held where
  nodup := (List.nodup_append'.mp hTracks.nodup).2.1
  marked_iff := fun a => by
    have hDisjoint :=
      (List.nodup_append'.mp hTracks.nodup).2.2
    rw [hTracks.marked_iff, List.mem_append]
    constructor
    · rintro ⟨hNot, hFreed | hHeld⟩
      · exact absurd hFreed hNot
      · exact hHeld
    · intro hHeld
      exact ⟨fun hFreed => hDisjoint hFreed hHeld,
        Or.inr hHeld⟩

end Ownership

------------------------------------
-- Holdings
------------------------------------

namespace Ownership

variable {α ι : Type}
variable {holds : ι → List α}
variable {owners : List ι}

/- One owner holds no cell twice. -/
theorem nodup_of_mem
    (hNodup : (owners.flatMap holds).Nodup)
    {i : ι}
    (hi : i ∈ owners) :
    (holds i).Nodup :=
  (List.nodup_flatMap.mp hNodup).1 i hi

/- Owners that hold something occur once. -/
theorem nodup_owners
    (hNodup : (owners.flatMap holds).Nodup)
    (hSome : ∀ i, holds i ≠ []) :
    owners.Nodup := by
  refine (List.nodup_flatMap.mp hNodup).2.imp ?_
  rintro i j hDisjoint rfl
  rcases List.exists_mem_of_ne_nil _ (hSome i) with ⟨a, ha⟩
  exact hDisjoint ha ha

/- Different owners hold different cells. -/
theorem not_mem_of_ne
    (hNodup : (owners.flatMap holds).Nodup)
    {i j : ι}
    (hi : i ∈ owners)
    (hj : j ∈ owners)
    (hNe : i ≠ j)
    {a : α}
    (ha : a ∈ holds i) :
    a ∉ holds j := by
  have hPairwise := (List.nodup_flatMap.mp hNodup).2
  have : Std.Symm
      (Function.onFun List.Disjoint holds) :=
    ⟨fun _ _ => List.disjoint_symm⟩
  exact hPairwise.forall hi hj hNe ha

/- An owner that is a cell is held by itself alone. -/
theorem head_not_mem
    {owners : List α}
    {others : α → List α}
    (hNodup :
      (owners.flatMap fun a => a :: others a).Nodup)
    {a b : α}
    (ha : a ∈ owners)
    (hb : b ∈ owners) :
    a ∉ others b := by
  intro hMem
  by_cases hEq : a = b
  · subst hEq
    exact (List.nodup_cons.mp (nodup_of_mem hNodup ha)).1 hMem
  · exact not_mem_of_ne hNodup ha hb hEq List.mem_cons_self
      (List.mem_cons_of_mem _ hMem)

end Ownership

------------------------------------
-- Moves between Places
------------------------------------

namespace Ownership

variable {α π : Type}
variable [DecidableEq α]
variable {place : α → π}
variable {a : α}
variable {p q : π}
variable {held : List α}

/- A cell that comes to a place is put at the end. -/
theorem Tracks.arrive
    (hTracks : Tracks (fun b => place b = p) held)
    (hAway : place a ≠ p) :
    Tracks (fun b => Function.update place a p b = p)
      (held ++ [a]) where
  nodup := by
    refine List.nodup_append'.mpr
      ⟨hTracks.nodup, List.nodup_singleton a, ?_⟩
    intro b hb ha
    rw [List.mem_singleton.mp ha, ← hTracks.marked_iff] at hb
    exact hAway hb
  marked_iff := fun b => by
    rw [List.mem_append, List.mem_singleton,
      ← hTracks.marked_iff]
    by_cases hEq : b = a
    · simp [hEq]
    · simp [hEq]

/- The first cell leaves a place. -/
theorem Tracks.depart
    (hTracks : Tracks (fun b => place b = p) (a :: held))
    (hNe : q ≠ p) :
    Tracks (fun b => Function.update place a q b = p)
      held where
  nodup := (List.nodup_cons.mp hTracks.nodup).2
  marked_iff := fun b => by
    have hOut := (List.nodup_cons.mp hTracks.nodup).1
    by_cases hEq : b = a
    · subst hEq
      simp [hNe, hOut]
    · have hIff := hTracks.marked_iff b
      simp only [List.mem_cons, hEq, false_or] at hIff
      rw [Function.update_of_ne hEq, hIff]

/- A cell moves between two other places. -/
theorem Tracks.elsewhere
    (hTracks : Tracks (fun b => place b = p) held)
    (hAway : place a ≠ p)
    (hNe : q ≠ p) :
    Tracks (fun b => Function.update place a q b = p)
      held := by
  refine hTracks.congr ?_
  intro b
  by_cases hEq : b = a
  · subst hEq
    simp [hAway, hNe]
  · rw [Function.update_of_ne hEq]

end Ownership
