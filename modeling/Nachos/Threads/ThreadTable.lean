import Nachos.Lib.Ownership
import Nachos.Lib.Transition

/-
  The table of thread numbers.

  The constructor of a thread takes the first free number and
  has no way to fail; with all numbers taken the thread gets
  the number -1.  The destructor clears the entry of its
  number without a check.

  Main declarations:
    * `Population`
    * `Population.Sound`
    * `Population.sound_of_reachable`
    * `Population.one_thread_too_many`
-/

------------------------------------
-- The Table
------------------------------------

namespace Nachos

abbrev MaxThread : Nat := 128

abbrev ThreadIDs :=
  Fin MaxThread → Int

/- The first free number becomes used; -1 if there is none. -/
def allocatedThreadID
    (threadIDs : ThreadIDs) :
    Int × ThreadIDs :=
  match (List.finRange MaxThread).find? fun i =>
      threadIDs i = 0 with
  | some i => (i.1, Function.update threadIDs i 1)
  | none => (-1, threadIDs)

/- The destructor's write; `none` is outside of the array. -/
def releaseThreadID
    (threadIDs : ThreadIDs)
    (threadID : Int) :
    Option ThreadIDs :=
  if h : 0 ≤ threadID ∧ threadID < MaxThread then
    some (Function.update threadIDs
      ⟨threadID.toNat, by omega⟩ 0)
  else
    none

namespace ThreadIDs

/- Is a number marked as used? -/
def IsTaken
    (threadIDs : ThreadIDs)
    (threadID : Int) : Prop :=
  ∃ i : Fin MaxThread, (i.1 : Int) = threadID ∧ threadIDs i = 1

/- Entries are 0 or 1. -/
def Binary
    (threadIDs : ThreadIDs) : Prop :=
  ∀ i, threadIDs i = 0 ∨ threadIDs i = 1

end ThreadIDs

end Nachos

------------------------------------
-- Taking and Giving Back
------------------------------------

namespace Nachos

open Ownership

namespace ThreadIDs

variable {threadIDs : ThreadIDs}
variable {held : List Int}

theorem isTaken_val
    (threadIDs : ThreadIDs)
    (i : Fin MaxThread) :
    IsTaken threadIDs i.1 ↔ threadIDs i = 1 := by
  constructor
  · rintro ⟨j, hEq, hOne⟩
    rwa [show i = j from Fin.ext (by omega)]
  · intro hOne
    exact ⟨i, rfl, hOne⟩

theorem mem_range_of_mem
    (hTracks : Tracks (IsTaken threadIDs) held)
    {threadID : Int}
    (hMem : threadID ∈ held) :
    0 ≤ threadID ∧ threadID < MaxThread := by
  rcases (hTracks.marked_iff threadID).mpr hMem with
    ⟨i, hEq, _⟩
  have hLt := i.2
  omega

/- Used numbers and existing threads are equally many. -/
theorem count_eq_length
    (hTracks : Tracks (IsTaken threadIDs) held) :
    (List.finRange MaxThread).countP
      (fun i => threadIDs i = 1) = held.length := by
  have hPerm :
      (((List.finRange MaxThread).filter fun i =>
        threadIDs i = 1).map fun i => (i.1 : Int)).Perm
        held := by
    refine (List.perm_ext_iff_of_nodup ?_
      hTracks.nodup).mpr ?_
    · refine ((List.nodup_finRange _).filter _).map ?_
      intro i j hEq
      exact Fin.ext (Int.ofNat.inj hEq)
    · intro a
      rw [← hTracks.marked_iff, IsTaken]
      simp only [List.mem_map, List.mem_filter,
        List.mem_finRange, true_and, decide_eq_true_eq]
      constructor
      · rintro ⟨i, hOne, hEq⟩
        exact ⟨i, hEq, hOne⟩
      · rintro ⟨i, hEq, hOne⟩
        exact ⟨i, hOne, hEq⟩
  rw [List.countP_eq_length_filter, ← hPerm.length_eq,
    List.length_map]

/- With every number used there are as many threads. -/
theorem length_of_full
    (hTracks : Tracks (IsTaken threadIDs) held)
    (hFull : ∀ i, threadIDs i = 1) :
    held.length = MaxThread := by
  rw [← count_eq_length hTracks, List.countP_eq_length.mpr]
  · exact List.length_finRange
  · simp [hFull]

/- The constructor finds a number below the limit. -/
theorem allocate_of_lt
    (hBinary : Binary threadIDs)
    (hTracks : Tracks (IsTaken threadIDs) held)
    (hRoom : held.length < MaxThread) :
    ∃ i : Fin MaxThread,
      allocatedThreadID threadIDs =
        ((i.1 : Int), Function.update threadIDs i 1) ∧
      Binary (Function.update threadIDs i 1) ∧
      Tracks (IsTaken (Function.update threadIDs i 1))
        ((i.1 : Int) :: held) := by
  cases hFind : (List.finRange MaxThread).find? fun i =>
      decide (threadIDs i = 0) with
  | none =>
      have hFull : ∀ i, threadIDs i = 1 := by
        intro i
        have hNot := List.find?_eq_none.mp hFind i
          (List.mem_finRange i)
        rw [decide_eq_true_eq] at hNot
        exact (hBinary i).resolve_left hNot
      have hLength := length_of_full hTracks hFull
      omega
  | some i =>
      have hZero := List.find?_some
        (p := fun i => decide (threadIDs i = 0)) hFind
      rw [decide_eq_true_eq] at hZero
      refine ⟨i, by simp only [allocatedThreadID, hFind],
        ?_, ?_⟩
      · intro j
        by_cases hEq : j = i
        · subst hEq
          exact Or.inr (Function.update_self ..)
        · rw [Function.update_of_ne hEq]
          exact hBinary j
      · have hFree : ∀ a ∈ [(i.1 : Int)],
            ¬ IsTaken threadIDs a := by
          intro a ha
          rw [List.mem_singleton.mp ha, isTaken_val, hZero]
          decide
        refine (hTracks.acquire (List.nodup_singleton _)
          hFree).congr ?_
        intro a
        rw [List.mem_singleton]
        constructor
        · rintro ⟨j, hEq, hOne⟩
          by_cases hj : j = i
          · exact Or.inl (by rw [← hEq, hj])
          · rw [Function.update_of_ne hj] at hOne
            exact Or.inr ⟨j, hEq, hOne⟩
        · rintro (rfl | ⟨j, hEq, hOne⟩)
          · exact ⟨i, rfl, Function.update_self ..⟩
          · by_cases hj : j = i
            · subst hj
              exact ⟨j, hEq, Function.update_self ..⟩
            · exact ⟨j, hEq, by
                rwa [Function.update_of_ne hj]⟩

/- With no number left the thread gets -1. -/
theorem allocate_of_full
    (hTracks : Tracks (IsTaken threadIDs) held)
    (hFull : held.length = MaxThread) :
    allocatedThreadID threadIDs = (-1, threadIDs) := by
  have hCount := List.countP_eq_length.mp
    (((count_eq_length hTracks).trans hFull).trans
      List.length_finRange.symm)
  have hNone : (List.finRange MaxThread).find? (fun i =>
      decide (threadIDs i = 0)) = none := by
    rw [List.find?_eq_none]
    intro i hi
    have hOne := hCount i hi
    rw [decide_eq_true_eq] at hOne ⊢
    omega
  simp only [allocatedThreadID, hNone]

/- The destructor of an existing thread frees its number. -/
theorem release_of_tracks
    {threadID : Int}
    (hBinary : Binary threadIDs)
    (hTracks :
      Tracks (IsTaken threadIDs) (threadID :: held)) :
    ∃ threadIDs',
      releaseThreadID threadIDs threadID =
        some threadIDs' ∧
      Binary threadIDs' ∧
      Tracks (IsTaken threadIDs') held := by
  have hRange := mem_range_of_mem hTracks List.mem_cons_self
  refine ⟨_, dif_pos hRange, ?_, ?_⟩
  · intro j
    by_cases hEq : j = ⟨threadID.toNat, by omega⟩
    · subst hEq
      exact Or.inl (Function.update_self ..)
    · rw [Function.update_of_ne hEq]
      exact hBinary j
  · have hOwned :
        Tracks (IsTaken threadIDs) ([threadID] ++ held) :=
      hTracks
    refine hOwned.release.congr ?_
    intro a
    rw [List.mem_singleton]
    constructor
    · rintro ⟨j, hEq, hOne⟩
      by_cases hj : j = ⟨threadID.toNat, by omega⟩
      · rw [hj, Function.update_self] at hOne
        omega
      · rw [Function.update_of_ne hj] at hOne
        refine ⟨?_, j, hEq, hOne⟩
        rintro rfl
        exact hj (Fin.ext (by simp; omega))
    · rintro ⟨hNe, j, hEq, hOne⟩
      refine ⟨j, hEq, ?_⟩
      rwa [Function.update_of_ne]
      rintro rfl
      exact hNe (by simp at hEq; omega)

end ThreadIDs

end Nachos

------------------------------------
-- Constructions and Destructions
------------------------------------

namespace Nachos

open Ownership

/- The table with the numbers of the existing threads. -/
structure Population where
  threadIDs : ThreadIDs
  existing : List Int

namespace Population

inductive Event where
  | construct
  | destroy (k : Nat)

/-
  A constructed thread comes first.  A destruction names the
  position of its thread.
-/
def step
    (p : Population) :
    Event → Option Population
| .construct =>
    let (threadID, threadIDs) :=
      allocatedThreadID p.threadIDs
    some ⟨threadIDs, threadID :: p.existing⟩
| .destroy k => do
    let threadID ← p.existing[k]?
    let threadIDs ← releaseThreadID p.threadIDs threadID
    some ⟨threadIDs, p.existing.eraseIdx k⟩

def empty : Population where
  threadIDs := fun _ => 0
  existing := []

/- Constructions happen in the states that `mayConstruct`. -/
def Allowed
    (mayConstruct : Population → Prop)
    (p : Population) :
    Event → Prop
| .construct => mayConstruct p
| .destroy k => k < p.existing.length

def system
    (mayConstruct : Population → Prop) :
    Transition.System Population Event where
  init := fun p => p = empty
  allowed := Allowed mayConstruct
  step := step

def HasRoom
    (p : Population) : Prop :=
  p.existing.length < MaxThread

/- The numbers are valid, distinct, and exactly those used. -/
structure Sound
    (p : Population) : Prop where
  in_range :
    ∀ threadID ∈ p.existing,
      0 ≤ threadID ∧ threadID < MaxThread
  distinct : p.existing.Nodup
  used_iff :
    ∀ i, p.threadIDs i = 1 ↔ (i.1 : Int) ∈ p.existing
  release_inside :
    ∀ threadID ∈ p.existing,
      releaseThreadID p.threadIDs threadID ≠ none

/- What constructions and destructions keep. -/
structure Tracked
    (p : Population) : Prop where
  binary : p.threadIDs.Binary
  tracks : Tracks p.threadIDs.IsTaken p.existing

variable {p q : Population}

theorem tracked_empty :
    empty.Tracked where
  binary := fun _ => Or.inl rfl
  tracks :=
    { nodup := List.nodup_nil
      marked_iff := fun _ => by
        simp [ThreadIDs.IsTaken, empty] }

theorem Tracked.sound
    (hInv : p.Tracked) :
    p.Sound where
  in_range := fun _ hMem =>
    ThreadIDs.mem_range_of_mem hInv.tracks hMem
  distinct := hInv.tracks.nodup
  used_iff := fun i => by
    rw [← ThreadIDs.isTaken_val, hInv.tracks.marked_iff]
  release_inside := by
    intro threadID hMem
    have hRange :=
      ThreadIDs.mem_range_of_mem hInv.tracks hMem
    rw [releaseThreadID, dif_pos hRange]
    exact Option.some_ne_none _

/- No more threads than numbers exist. -/
theorem Tracked.length_le
    (hInv : p.Tracked) :
    p.existing.length ≤ MaxThread := by
  rw [← ThreadIDs.count_eq_length hInv.tracks]
  refine Nat.le_trans List.countP_le_length ?_
  exact Nat.le_of_eq List.length_finRange

theorem Tracked.construct
    (hInv : p.Tracked)
    (hRoom : p.HasRoom)
    (hStep : p.step .construct = some q) :
    q.Tracked ∧
      q.existing.length = p.existing.length + 1 := by
  rcases ThreadIDs.allocate_of_lt hInv.binary hInv.tracks
    hRoom with ⟨i, hAllocate, hBinary, hTracks⟩
  rw [step, hAllocate] at hStep
  cases hStep
  exact ⟨⟨hBinary, hTracks⟩, rfl⟩

theorem Tracked.destroy
    (hInv : p.Tracked)
    {k : Nat}
    (hStep : p.step (.destroy k) = some q) :
    q.Tracked := by
  rcases Option.bind_eq_some_iff.mp hStep with
    ⟨threadID, hGet, hRest⟩
  rcases Option.bind_eq_some_iff.mp hRest with
    ⟨threadIDs', hRelease, hEq⟩
  cases hEq
  rcases List.getElem?_eq_some_iff.mp hGet with
    ⟨hLt, rfl⟩
  have hTracks := hInv.tracks.perm
    (List.getElem_cons_eraseIdx_perm hLt).symm
  rcases ThreadIDs.release_of_tracks hInv.binary hTracks with
    ⟨released, hSome, hBinary, hTracked⟩
  cases hSome.symm.trans hRelease
  exact ⟨hBinary, hTracked⟩

theorem tracked_of_reachable
    (hReach : (system HasRoom).Reachable p) :
    p.Tracked := by
  refine hReach.invariant ?_ ?_
  · rintro s rfl
    exact tracked_empty
  · intro s event t hInv hAllowed hStep
    cases event with
    | construct => exact (hInv.construct hAllowed hStep).1
    | destroy k => exact hInv.destroy hStep

/- One thread more than there are numbers gets -1. -/
theorem construct_of_full
    (hInv : p.Tracked)
    (hFull : p.existing.length = MaxThread) :
    p.step .construct =
      some ⟨p.threadIDs, -1 :: p.existing⟩ := by
  rw [step, ThreadIDs.allocate_of_full hInv.tracks hFull]

theorem not_sound_of_neg
    {threadIDs : ThreadIDs}
    {existing : List Int} :
    ¬ Sound ⟨threadIDs, -1 :: existing⟩ := by
  intro hSound
  have hRange := hSound.in_range (-1) List.mem_cons_self
  omega

/-
  As long as threads are constructed only below the limit,
  the table is sound; and a construction keeps it sound
  exactly when it is below the limit.
-/
theorem sound_of_reachable
    (hReach : (system HasRoom).Reachable p) :
    p.Sound ∧
      ∀ q, p.step .construct = some q →
        (q.Sound ↔ p.HasRoom) := by
  have hInv := tracked_of_reachable hReach
  refine ⟨hInv.sound, ?_⟩
  intro q hStep
  constructor
  · intro hSound
    by_contra hFull
    have hLength : p.existing.length = MaxThread :=
      Nat.le_antisymm hInv.length_le (Nat.not_lt.mp hFull)
    cases (construct_of_full hInv hLength).symm.trans hStep
    exact not_sound_of_neg hSound
  · intro hRoom
    exact (hInv.construct hRoom hStep).1.sound

instance
    (p : Population)
    (event : Event) :
    Decidable ((system HasRoom).allowed p event) := by
  cases event <;> exact Nat.decLt _ _

/- The number of a deleted thread is given out again. -/
theorem sound_after_reuse :
    ∃ p, (system HasRoom).Reachable p ∧
      p.existing = [1, 2, 0] ∧
      p.Sound ∧
      ∀ q, p.step .construct = some q →
        (q.Sound ↔ p.HasRoom) := by
  have hRun :
      ((system HasRoom).attempt empty
        [.construct, .construct, .construct, .destroy 1,
          .construct]).any
        (fun p => p.existing = [1, 2, 0]) = true := by
    decide +kernel
  rcases (Option.any_eq_true _ _).mp hRun with
    ⟨p, hAttempt, hExisting⟩
  have hReach : (system HasRoom).Reachable p :=
    Transition.System.Reachable.of_attempt (.of_init rfl)
      hAttempt
  exact ⟨p, hReach, of_decide_eq_true hExisting,
    sound_of_reachable hReach⟩

/- As many threads as one likes, up to the limit. -/
theorem exists_tracked_of_le
    {n : Nat}
    (hLe : n ≤ MaxThread) :
    ∃ p, (system fun _ => True).Reachable p ∧
      p.Tracked ∧ p.existing.length = n := by
  induction n with
  | zero =>
      exact ⟨empty, .of_init rfl, tracked_empty, rfl⟩
  | succ n ih =>
      rcases ih (by omega) with
        ⟨p, hReach, hInv, hLength⟩
      have hRoom : p.HasRoom := by
        rw [HasRoom, hLength]
        omega
      have hNext := hInv.construct hRoom rfl
      exact ⟨_,
        hReach.of_step (a := Event.construct) trivial rfl,
        hNext.1, hNext.2.trans (by rw [hLength])⟩

/-
  Without the limit a thread gets the number -1, and its
  destructor writes outside of the table.
-/
theorem one_thread_too_many :
    ∃ p, (system fun _ => True).Reachable p ∧
      p.existing.length = MaxThread + 1 ∧
      -1 ∈ p.existing ∧
      ¬ p.Sound ∧
      p.step (.destroy 0) = none := by
  rcases exists_tracked_of_le (Nat.le_refl _) with
    ⟨p, hReach, hInv, hLength⟩
  have hStep := construct_of_full hInv hLength
  refine ⟨_,
    hReach.of_step (a := Event.construct) trivial hStep,
    ?_, List.mem_cons_self, not_sound_of_neg, rfl⟩
  rw [List.length_cons, hLength]

end Population

end Nachos
