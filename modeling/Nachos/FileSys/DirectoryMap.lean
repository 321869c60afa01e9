import Nachos.FileSys.OtherFiles
import Nachos.Lib.History
import Nachos.Lib.Transition

/-
  A directory is a bounded finite map.

  The keys are the first characters of names.  Entries are
  reused, and what is left of older names in them does not
  matter: over every row of calls a lookup finds the sector
  that was added last under the name, unless the name was
  removed since.

  Main declarations:
    * `CString.truncated`
    * `LoggedDirectory`
    * `LoggedDirectory.Tracks.add`
    * `LoggedDirectory.Tracks.remove`
    * `LoggedDirectory.actsAsMap_of_reachable`
-/

------------------------------------
-- Truncated Names
------------------------------------

namespace Nachos

open Bytes

/- The part of a name that counts. -/
def CString.truncated
    (name : CString) :
    List Byte :=
  name.chars.take FileNameMaxLen

theorem CString.firstChars_char
    (name : CString)
    (i n : Nat) :
    firstChars name.char i n = (name.chars.drop i).take n := by
  induction n generalizing i with
  | zero => rw [List.take_zero, firstChars]
  | succ n ih =>
      rw [firstChars]
      by_cases hi : i < name.chars.length
      · have hChar : name.char i = name.chars[i] := by
          simp [CString.char, hi]
        have hNe : name.char i ≠ 0 := by
          intro hZero
          apply name.noNul
          rw [← hZero, hChar]
          exact List.getElem_mem hi
        rw [if_neg hNe, ih, List.drop_eq_getElem_cons hi,
          List.take_succ_cons, hChar]
      · have hChar : name.char i = 0 := by
          simp [CString.char, hi]
        rw [if_pos hChar, List.drop_eq_nil_of_le (by omega),
          List.take_nil]

namespace DirectoryEntry

/- The name in an entry, as it is compared. -/
def storedName
    (e : DirectoryEntry) :
    List Byte :=
  firstChars e.nameChar 0 FileNameMaxLen

theorem isNamed_iff
    {e : DirectoryEntry}
    {name : CString} :
    e.isNamed name = true ↔
      e.isInUse = true ∧ e.storedName = name.truncated := by
  rw [isNamed_eq_true, strncmp, strncmpFrom_eq_zero_iff,
    CString.firstChars_char, List.drop_zero]
  rfl

theorem storedName_assign
    (e : DirectoryEntry)
    (name : CString)
    (newSector : Int) :
    (e.assign name newSector).storedName = name.truncated :=
  (isNamed_iff.mp (e.isNamed_assign name newSector)).2

end DirectoryEntry

end Nachos

------------------------------------
-- Directories with a Log
------------------------------------

namespace Nachos

open Bytes History

/-
  The log holds the calls that changed the directory: a name
  that was added with its sector, or a name that was removed.
-/
structure LoggedDirectory (tableSize : Nat) where
  directory : Directory tableSize
  log : List (List Byte × Option (BitVec 32))

namespace LoggedDirectory

variable {tableSize : Nat}
variable {e : DirectoryEntry}
variable {i : Fin tableSize}

def create
    (memory : Fin tableSize → DirectoryEntry) :
    LoggedDirectory tableSize :=
  ⟨.create memory, []⟩

def add
    (s : LoggedDirectory tableSize)
    (name : CString)
    (newSector : BitVec 32) :
    LoggedDirectory tableSize :=
  let (added, directory) :=
    s.directory.add name newSector.toInt
  ⟨directory,
    if added then
      s.log ++ [(name.truncated, some newSector)]
    else
      s.log⟩

def remove
    (s : LoggedDirectory tableSize)
    (name : CString) :
    LoggedDirectory tableSize :=
  let (removed, directory) := s.directory.remove name
  ⟨directory,
    if removed then
      s.log ++ [(name.truncated, none)]
    else
      s.log⟩

inductive Action where
  | add (name : CString) (newSector : BitVec 32)
  | remove (name : CString)
  | find (name : CString)

def step
    (s : LoggedDirectory tableSize) :
    Action → Option (LoggedDirectory tableSize)
| .add name newSector => some (s.add name newSector)
| .remove name => some (s.remove name)
| .find _ => some s

def system
    (tableSize : Nat) :
    Transition.System (LoggedDirectory tableSize) Action where
  init := fun s => ∃ memory, s = create memory
  allowed := fun _ _ => True
  step := step

/-
  Names in use differ, and the log gives a sector to a name
  just if an entry does.
-/
structure Tracks
    (s : LoggedDirectory tableSize) : Prop where
  distinct :
    ∀ i j,
      (s.directory.table i).isInUse = true →
      (s.directory.table j).isInUse = true →
      (s.directory.table i).storedName =
        (s.directory.table j).storedName → i = j
  latest_iff :
    ∀ key sector,
      latest s.log key = some sector ↔
        ∃ i, (s.directory.table i).isInUse = true ∧
          (s.directory.table i).storedName = key ∧
          (s.directory.table i).sector = sector

variable {s : LoggedDirectory tableSize}
variable {name : CString}

theorem findIndex_eq_none_iff
    {d : Directory tableSize} :
    d.findIndex name = none ↔
      ∀ i, (d.table i).isInUse = true →
        (d.table i).storedName ≠ name.truncated := by
  unfold Directory.findIndex
  rw [List.find?_eq_none]
  constructor
  · intro hNone i hUsed hName
    exact hNone i (List.mem_finRange i)
      (DirectoryEntry.isNamed_iff.mpr ⟨hUsed, hName⟩)
  · intro hNone i _ hNamed
    rcases DirectoryEntry.isNamed_iff.mp hNamed with
      ⟨hUsed, hName⟩
    exact hNone i hUsed hName

theorem tracks_create
    (memory : Fin tableSize → DirectoryEntry) :
    (create memory).Tracks := by
  have hUnused : ∀ i,
      ((create memory).directory.table i).isInUse = false :=
    fun _ => rfl
  constructor
  · intro i j hi
    rw [hUnused i] at hi
    cases hi
  · intro key sector
    constructor
    · intro hSome
      cases hSome
    · rintro ⟨i, hi, _⟩
      rw [hUnused i] at hi
      cases hi

/-
  Setting an entry does not matter for a key that is the name
  neither of the old nor of the new entry.
-/
theorem lists_set_iff
    {d : Directory tableSize}
    {key : List Byte}
    {sector : BitVec 32}
    (hOld :
      (d.table i).isInUse = true →
        (d.table i).storedName ≠ key)
    (hNew : e.isInUse = true → e.storedName ≠ key) :
    (∃ j, ((d.set i e).table j).isInUse = true ∧
        ((d.set i e).table j).storedName = key ∧
        ((d.set i e).table j).sector = sector) ↔
      ∃ j, (d.table j).isInUse = true ∧
        (d.table j).storedName = key ∧
        (d.table j).sector = sector := by
  constructor
  · rintro ⟨j, hj, hName, hSector⟩
    have hji : j ≠ i := by
      intro hEq
      rw [hEq, Directory.table_set] at hj hName
      exact hNew hj hName
    rw [d.table_set_of_ne hji] at hj hName hSector
    exact ⟨j, hj, hName, hSector⟩
  · rintro ⟨j, hj, hName, hSector⟩
    have hji : j ≠ i := by
      intro hEq
      rw [hEq] at hj hName
      exact hOld hj hName
    refine ⟨j, ?_⟩
    rw [d.table_set_of_ne hji]
    exact ⟨hj, hName, hSector⟩

/- A new name is put into an entry that is not in use. -/
theorem Tracks.of_new
    (hTracks : s.Tracks)
    (hUnused : (s.directory.table i).isInUse = false)
    (hUsed : e.isInUse = true)
    (hAbsent :
      ∀ j, (s.directory.table j).isInUse = true →
        (s.directory.table j).storedName ≠ e.storedName) :
    Tracks ⟨s.directory.set i e,
      s.log ++ [(e.storedName, some e.sector)]⟩ := by
  constructor
  · intro j k hj hk hName
    dsimp only at hj hk hName
    by_cases hji : j = i
    · by_cases hki : k = i
      · exact hji.trans hki.symm
      · rw [s.directory.table_set_of_ne hki] at hk hName
        rw [hji, Directory.table_set] at hName
        exact absurd hName.symm (hAbsent k hk)
    · rw [s.directory.table_set_of_ne hji] at hj hName
      by_cases hki : k = i
      · rw [hki, Directory.table_set] at hName
        exact absurd hName (hAbsent j hj)
      · rw [s.directory.table_set_of_ne hki] at hk hName
        exact hTracks.distinct j k hj hk hName
  · intro key sector
    dsimp only
    rw [latest_concat]
    split
    · rename_i hKey
      constructor
      · intro hSome
        refine ⟨i, ?_⟩
        rw [Directory.table_set]
        exact ⟨hUsed, hKey, Option.some.inj hSome⟩
      · rintro ⟨j, hj, hName, hSector⟩
        by_cases hji : j = i
        · rw [hji, Directory.table_set] at hSector
          exact congrArg some hSector
        · rw [s.directory.table_set_of_ne hji] at hj hName
          exact absurd (hName.trans hKey.symm) (hAbsent j hj)
    · rename_i hKey
      rw [hTracks.latest_iff]
      apply (lists_set_iff _ _).symm
      · intro hi
        rw [hUnused] at hi
        cases hi
      · intro _
        exact hKey

/- An entry in use is cleared. -/
theorem Tracks.of_clear
    (hTracks : s.Tracks)
    (hUsed : (s.directory.table i).isInUse = true)
    (hClear : e.isInUse = false) :
    Tracks ⟨s.directory.set i e,
      s.log ++ [((s.directory.table i).storedName, none)]⟩ := by
  have hOther : ∀ j,
      ((s.directory.set i e).table j).isInUse = true →
      j ≠ i := by
    intro j hj hEq
    rw [hEq, Directory.table_set, hClear] at hj
    cases hj
  constructor
  · intro j k hj hk hName
    have hji := hOther j hj
    have hki := hOther k hk
    dsimp only at hj hk hName
    rw [s.directory.table_set_of_ne hji] at hj hName
    rw [s.directory.table_set_of_ne hki] at hk hName
    exact hTracks.distinct j k hj hk hName
  · intro key sector
    dsimp only
    rw [latest_concat]
    split
    · rename_i hKey
      constructor
      · intro hSome
        cases hSome
      · rintro ⟨j, hj, hName, _⟩
        have hji := hOther j hj
        rw [s.directory.table_set_of_ne hji] at hj hName
        exact absurd
          (hTracks.distinct j i hj hUsed (hName.trans hKey.symm))
          hji
    · rename_i hKey
      rw [hTracks.latest_iff]
      apply (lists_set_iff _ _).symm
      · intro _
        exact hKey
      · intro hi
        rw [hClear] at hi
        cases hi

theorem Tracks.add
    (hTracks : s.Tracks)
    (name : CString)
    (newSector : BitVec 32) :
    (s.add name newSector).Tracks := by
  unfold LoggedDirectory.add Directory.add
  cases hFind : s.directory.findIndex name with
  | some i => exact hTracks
  | none =>
      cases hFree : s.directory.freeIndex with
      | none => exact hTracks
      | some i =>
          have hAbsent := findIndex_eq_none_iff.mp hFind
          have hName := (s.directory.table i).storedName_assign
            name newSector.toInt
          rw [← hName] at hAbsent
          have hNew := hTracks.of_new
            (Directory.freeIndex_eq_some hFree)
            ((s.directory.table i).isInUse_assign name
              newSector.toInt) hAbsent
          have hSector : ((s.directory.table i).assign name
              newSector.toInt).sector = newSector :=
            BitVec.ofInt_toInt
          rw [hName, hSector] at hNew
          exact hNew

theorem Tracks.remove
    (hTracks : s.Tracks)
    (name : CString) :
    (s.remove name).Tracks := by
  unfold LoggedDirectory.remove Directory.remove
  cases hFind : s.directory.findIndex name with
  | none => exact hTracks
  | some i =>
      rcases DirectoryEntry.isNamed_iff.mp
        (Directory.findIndex_eq_some hFind).1 with
        ⟨hUsed, hName⟩
      have hGone := hTracks.of_clear (i := i)
        (e := { s.directory.table i with inUse := 0 }) hUsed
        rfl
      rw [hName] at hGone
      exact hGone

theorem tracks_of_reachable
    (hReach : (system tableSize).Reachable s) :
    s.Tracks := by
  refine hReach.invariant ?_ ?_
  · rintro _ ⟨memory, rfl⟩
    exact tracks_create memory
  · intro s a t hTracks _ hStep
    cases a with
    | add name newSector =>
        cases hStep
        exact hTracks.add name newSector
    | remove name =>
        cases hStep
        exact hTracks.remove name
    | find name =>
        cases hStep
        exact hTracks

end LoggedDirectory

end Nachos

------------------------------------
-- The Map
------------------------------------

namespace Nachos

open Bytes History

namespace LoggedDirectory

variable {tableSize : Nat}

/- The name is in the directory. -/
def Holds
    (d : Directory tableSize)
    (name : CString) : Prop :=
  ∃ i, (d.table i).isInUse = true ∧
    (d.table i).storedName = name.truncated

/-
  The directory is a map from truncated names to sectors with
  room for `tableSize` names.
-/
structure ActsAsMap
    (s : LoggedDirectory tableSize) : Prop where
  distinct :
    ∀ i j,
      (s.directory.table i).isInUse = true →
      (s.directory.table j).isInUse = true →
      strncmp (s.directory.table i).nameChar
        (s.directory.table j).nameChar FileNameMaxLen = 0 →
      i = j
  find :
    ∀ name : CString,
      s.directory.find name =
        ((latest s.log name.truncated).map
          BitVec.toInt).getD (-1)
  add_fails :
    ∀ (name : CString) (newSector : BitVec 32),
      (s.directory.add name newSector.toInt).1 = false ↔
        Holds s.directory name ∨
          ∀ i, (s.directory.table i).isInUse = true
  add_unchanged :
    ∀ (name : CString) (newSector : BitVec 32),
      (s.directory.add name newSector.toInt).1 = false →
        (s.directory.add name newSector.toInt).2 = s.directory
  remove_fails :
    ∀ name : CString,
      (s.directory.remove name).1 = false ↔
        ¬ Holds s.directory name
  remove_unchanged :
    ∀ name : CString,
      (s.directory.remove name).1 = false →
        (s.directory.remove name).2 = s.directory
  others :
    ∀ (name other : CString) (newSector : BitVec 32),
      name.truncated ≠ other.truncated →
        (s.directory.add name newSector.toInt).2.find other =
            s.directory.find other ∧
          (s.directory.remove name).2.find other =
            s.directory.find other

variable {s : LoggedDirectory tableSize}

theorem findIndex_isSome_iff
    {d : Directory tableSize}
    {name : CString} :
    (d.findIndex name).isSome = true ↔ Holds d name := by
  rw [← not_iff_not, Bool.not_eq_true, Option.isSome_eq_false_iff,
    Option.isNone_iff_eq_none, findIndex_eq_none_iff]
  unfold Holds
  push Not
  rfl

theorem Tracks.find
    (hTracks : s.Tracks)
    (name : CString) :
    s.directory.find name =
      ((latest s.log name.truncated).map
        BitVec.toInt).getD (-1) := by
  unfold Directory.find
  cases hFind : s.directory.findIndex name with
  | some i =>
      rcases DirectoryEntry.isNamed_iff.mp
        (Directory.findIndex_eq_some hFind).1 with
        ⟨hUsed, hName⟩
      rw [(hTracks.latest_iff _ _).mpr ⟨i, hUsed, hName, rfl⟩]
      rfl
  | none =>
      have hAbsent := findIndex_eq_none_iff.mp hFind
      cases hLatest : latest s.log name.truncated with
      | none => rfl
      | some sector =>
          rcases (hTracks.latest_iff _ _).mp hLatest with
            ⟨i, hUsed, hName, _⟩
          exact absurd hName (hAbsent i hUsed)

/- The log of a name is not touched by other names. -/
theorem latest_add
    {name other : CString}
    (newSector : BitVec 32)
    (hNe : name.truncated ≠ other.truncated) :
    latest (s.add name newSector).log other.truncated =
      latest s.log other.truncated := by
  unfold LoggedDirectory.add
  dsimp only
  split
  · rw [latest_concat, if_neg hNe]
  · rfl

theorem latest_remove
    {name other : CString}
    (hNe : name.truncated ≠ other.truncated) :
    latest (s.remove name).log other.truncated =
      latest s.log other.truncated := by
  unfold LoggedDirectory.remove
  dsimp only
  split
  · rw [latest_concat, if_neg hNe]
  · rfl

theorem add_fails_iff
    (d : Directory tableSize)
    (name : CString)
    (newSector : Int) :
    ((d.add name newSector).1 = false ↔
      Holds d name ∨ ∀ i, (d.table i).isInUse = true) ∧
    ((d.add name newSector).1 = false →
      (d.add name newSector).2 = d) := by
  unfold Directory.add
  rw [← findIndex_isSome_iff, ← Directory.freeIndex_eq_none_iff]
  cases hFind : d.findIndex name with
  | some i => simp
  | none =>
      cases hFree : d.freeIndex with
      | none => simp
      | some i => simp

theorem remove_fails_iff
    (d : Directory tableSize)
    (name : CString) :
    ((d.remove name).1 = false ↔ ¬ Holds d name) ∧
    ((d.remove name).1 = false → (d.remove name).2 = d) := by
  unfold Directory.remove
  rw [← findIndex_isSome_iff]
  cases hFind : d.findIndex name with
  | some i => simp
  | none => simp

/- In every run the directory is such a map. -/
theorem actsAsMap_of_reachable
    (hReach : (system tableSize).Reachable s) :
    s.ActsAsMap := by
  have hTracks := tracks_of_reachable hReach
  constructor
  · intro i j hi hj hSame
    rw [strncmp, strncmpFrom_eq_zero_iff] at hSame
    exact hTracks.distinct i j hi hj hSame
  · exact hTracks.find
  · intro name newSector
    exact (add_fails_iff s.directory name newSector.toInt).1
  · intro name newSector
    exact (add_fails_iff s.directory name newSector.toInt).2
  · intro name
    exact (remove_fails_iff s.directory name).1
  · intro name
    exact (remove_fails_iff s.directory name).2
  · intro name other newSector hNe
    have hAdd := (hTracks.add name newSector).find other
    have hRemove := (hTracks.remove name).find other
    rw [latest_add newSector hNe, ← hTracks.find] at hAdd
    rw [latest_remove hNe, ← hTracks.find] at hRemove
    exact ⟨hAdd, hRemove⟩

/- An empty directory with one entry. -/
def oneEntry :
    LoggedDirectory 1 :=
  create fun _ =>
    ⟨0, fun _ => 0, 0, fun _ => 0, fun _ => 0⟩

def longName :
    CString :=
  ⟨List.replicate 10 0x61, by decide⟩

/- A long name is removed and its entry is used again. -/
def reused :
    LoggedDirectory 1 :=
  ((oneEntry.add longName 5).remove longName).add CString.b 7

theorem actsAsMap_after_reuse :
    (system 1).Reachable reused ∧
      reused.ActsAsMap ∧
      reused.directory.find longName = -1 ∧
      reused.directory.find CString.b = 7 := by
  have hStart : (system 1).Reachable oneEntry :=
    .of_init ⟨_, rfl⟩
  have hAdded : (system 1).Reachable
      (oneEntry.add longName 5) :=
    hStart.of_step (a := .add longName 5) trivial rfl
  have hRemoved : (system 1).Reachable
      ((oneEntry.add longName 5).remove longName) :=
    hAdded.of_step (a := .remove longName) trivial rfl
  have hReach : (system 1).Reachable reused :=
    hRemoved.of_step (a := .add CString.b 7) trivial rfl
  have hMap := actsAsMap_of_reachable hReach
  exact ⟨hReach, hMap,
    (hMap.find longName).trans (by decide +kernel),
    (hMap.find CString.b).trans (by decide +kernel)⟩

end LoggedDirectory

end Nachos
