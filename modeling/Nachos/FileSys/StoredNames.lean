import Nachos.FileSys.DirectoryMap

/-
  Names as they are stored in the directory.

  `Add` copies the first characters of a name and leaves the
  last byte of the array alone, so that this byte is for ever
  what the memory of the formatted directory held.  A name
  that fills the characters is ended by this byte, if by any.

  Main declarations:
    * `NamedFiles`
    * `NamedFiles.Stores`
    * `Directory.untilZero_eq_firstChars`
    * `NamedFiles.stores_of_reachable`
    * `NamedFiles.namesEnd_iff`
-/

------------------------------------
-- Bytes of Names
------------------------------------

namespace Nachos

open Bytes

theorem DirectoryEntry.image_name
    (e : DirectoryEntry)
    (k : Fin (FileNameMaxLen + 1)) :
    DirectoryEntry.image e
        (Fin.natAdd 1 (Fin.natAdd 3
          (Fin.natAdd 4 (Fin.castAdd 2 k)))) =
      e.name k := by
  unfold DirectoryEntry.image
  rw [Equiv.trans_apply, pairImage_right, pairImage_right,
    pairImage_right, pairImage_left]
  rfl

/- The last byte is not written. -/
theorem DirectoryEntry.last_assign
    (e : DirectoryEntry)
    (name : CString)
    (newSector : Int) :
    (e.assign name newSector).name (Fin.last FileNameMaxLen) =
      e.name (Fin.last FileNameMaxLen) := by
  rw [assign]
  dsimp only [Fin.val_last]
  rw [if_neg (Nat.lt_irrefl FileNameMaxLen)]

/- A string is shorter than `n` if a zero comes before. -/
theorem length_firstChars_lt_iff
    {s : Nat → Byte}
    {i n : Nat} :
    (firstChars s i n).length < n ↔
      ∃ k < n, s (i + k) = 0 := by
  induction n generalizing i with
  | zero => simp
  | succ n ih =>
      rw [firstChars]
      by_cases hZero : s i = 0
      · rw [if_pos hZero]
        exact iff_of_true (Nat.zero_lt_succ n)
          ⟨0, Nat.zero_lt_succ n, hZero⟩
      · rw [if_neg hZero, List.length_cons,
          Nat.succ_lt_succ_iff, ih]
        constructor
        · rintro ⟨k, hk, hEnd⟩
          refine ⟨k + 1, Nat.succ_lt_succ hk, ?_⟩
          rwa [Nat.add_right_comm] at hEnd
        · rintro ⟨k, hk, hEnd⟩
          cases k with
          | zero => exact absurd hEnd hZero
          | succ k =>
              refine ⟨k, Nat.lt_of_succ_lt_succ hk, ?_⟩
              rwa [Nat.add_right_comm]

namespace Directory

variable {tableSize : Nat}

/- Removing a name changes the mark of an entry at most. -/
theorem table_remove
    (d : Directory tableSize)
    (name : CString)
    (i : Fin tableSize) :
    (d.remove name).2.table i = d.table i ∨
      (d.remove name).2.table i =
        { d.table i with inUse := 0 } := by
  rw [remove]
  cases d.findIndex name with
  | none => exact Or.inl rfl
  | some j =>
      by_cases hEq : i = j
      · subst hEq
        exact Or.inr (table_set d i _)
      · exact Or.inl (table_set_of_ne d hEq _)

/- The place of a character of a name in the table. -/
def nameByte
    (i : Fin tableSize)
    (k : Fin (FileNameMaxLen + 1)) :
    Fin (tableSize * DirectoryEntry.size) :=
  finProdFinEquiv (i,
    Fin.natAdd 1 (Fin.natAdd 3
      (Fin.natAdd 4 (Fin.castAdd 2 k))))

theorem val_nameByte
    (i : Fin tableSize)
    (k : Fin (FileNameMaxLen + 1)) :
    (nameByte i k).1 =
      i * DirectoryEntry.size +
        DirectoryEntry.nameOffset + k := by
  simp only [nameByte, finProdFinEquiv_apply_val,
    Fin.val_natAdd, Fin.val_castAdd, DirectoryEntry.size,
    DirectoryEntry.nameOffset, FileNameMaxLen]
  omega

theorem image_nameByte
    (d : Directory tableSize)
    (i : Fin tableSize)
    (k : Fin (FileNameMaxLen + 1)) :
    image d (nameByte i k) = (d.table i).name k :=
  (arrayImage_apply DirectoryEntry.image d.table i _).trans
    (DirectoryEntry.image_name _ k)

/- The bytes that are printed, from the first one on. -/
theorem getElem_nameBytes
    (d : Directory tableSize)
    (i : Fin tableSize)
    {k : Nat}
    (hk : k ≤ FileNameMaxLen) :
    ((List.ofFn (image d)).drop
        (i * DirectoryEntry.size +
          DirectoryEntry.nameOffset))[k]? =
      some ((d.table i).nameChar k) := by
  have hLt := Nat.lt_succ_of_le hk
  have hPlace := val_nameByte i ⟨k, hLt⟩
  have hByte := image_nameByte d i ⟨k, hLt⟩
  rw [List.getElem?_drop, ← hPlace, List.getElem?_ofFn,
    dif_pos (nameByte i ⟨k, hLt⟩).2,
    DirectoryEntry.nameChar, dif_pos hLt]
  exact congrArg some hByte

/- A string of bytes that is ended in time is read back. -/
theorem untilZero_eq_firstChars
    {bytes : List Byte}
    {s : Nat → Byte}
    {i n : Nat}
    (hBytes : ∀ k ≤ n, bytes[k]? = some (s (i + k)))
    (hEnd : (firstChars s i n).length < n ∨ s (i + n) = 0) :
    untilZero bytes = some (firstChars s i n) := by
  induction n generalizing bytes i with
  | zero =>
      have hFirst : bytes[0]? = some (s i) :=
        hBytes 0 (Nat.le_refl 0)
      have hZero : s i = 0 :=
        hEnd.resolve_left (Nat.not_lt_zero _)
      cases bytes with
      | nil => cases hFirst
      | cons b rest =>
          cases hFirst
          rw [untilZero, if_pos hZero, firstChars]
  | succ n ih =>
      have hFirst : bytes[0]? = some (s i) :=
        hBytes 0 (Nat.zero_le _)
      cases bytes with
      | nil => cases hFirst
      | cons b rest =>
          cases hFirst
          rw [firstChars] at hEnd ⊢
          rw [untilZero]
          by_cases hZero : s i = 0
          · rw [if_pos hZero, if_pos hZero]
          · rw [if_neg hZero] at hEnd ⊢
            have hNext : ∀ k, i + 1 + k = i + (k + 1) := by
              omega
            have hRest : untilZero rest =
                some (firstChars s (i + 1) n) := by
              apply ih
              · intro k hk
                rw [hNext]
                exact hBytes (k + 1) (Nat.succ_le_succ hk)
              · rw [hNext]
                exact hEnd.imp_left Nat.lt_of_succ_lt_succ
            rw [if_neg hZero, hRest]
            rfl

theorem mapM_map_eq_some
    {α β γ : Type}
    {v : α → β}
    {f : β → Option γ}
    {g : α → γ}
    {l : List α}
    (hAll : ∀ x ∈ l, f (v x) = some (g x)) :
    (l.map v).mapM f = some (l.map g) := by
  induction l with
  | nil => rfl
  | cons x l ih =>
      rw [List.map_cons, List.mapM_cons,
        hAll x List.mem_cons_self,
        ih fun y hy => hAll y (List.mem_cons_of_mem _ hy)]
      rfl

end Directory

end Nachos

------------------------------------
-- Calls That Change the Directory
------------------------------------

namespace Nachos

open Ownership

namespace FileSystem

variable {fs : FileSystem}
variable {disk disk' : Disk}
variable {name : CString}
variable {memory : Memory}

/- With a sector and an entry only the room may be missing. -/
theorem create_fills_entry
    (hKept : disk.Accounted Accounting.accepted)
    (hMounted : fs.MountedOn disk)
    (hAbsent : disk.directory.findIndex name = none)
    {i : Fin NumSectors}
    {rest : List (Fin NumSectors)}
    (hFree : disk.freeMap.freeBits = i :: rest)
    {j : Fin NumDirEntries}
    (hEntry : disk.directory.freeIndex = some j)
    {initialSize : BitVec 32}
    {created : Bool}
    (hRun :
      fs.create memory disk name initialSize.toInt =
        some (created, disk')) :
    (created = false ∧ disk' = disk) ∨
    (created = true ∧
      disk'.Accounted Accounting.accepted ∧
      fs.MountedOn disk' ∧
      disk'.directory =
        disk.directory.set j
          ((disk.directory.table j).assign name i)) := by
  have hSteps := hRun
  rw [create_of_entry hKept.tables hMounted memory hAbsent
    hFree hEntry] at hSteps
  rcases Option.bind_eq_some_iff.mp hSteps with
    ⟨⟨allocated, hdr, freeMap⟩, hAllocate, hNext⟩
  cases allocated with
  | false =>
      cases hNext
      exact Or.inl ⟨rfl, rfl⟩
  | true =>
      rcases FileHeader.allocate_accepted
          (BitMap.tracks_setBit hKept.tracks
            (BitMap.bit_of_freeBits_eq_cons hFree))
          hAllocate with
        ⟨hAccepted, hTracks⟩
      rcases create_accounted hKept hMounted memory hAbsent
          hFree hEntry hAllocate hAccepted hTracks with
        ⟨disk₁, hSpec, hKept₁, hMounted₁, hDir, _⟩
      rw [hSpec] at hRun
      cases hRun
      exact Or.inr ⟨rfl, hKept₁, hMounted₁, hDir⟩

/- Creating a file of any size fills one entry or none. -/
theorem create_fills
    (hKept : disk.Accounted Accounting.accepted)
    (hMounted : fs.MountedOn disk)
    {initialSize : BitVec 32}
    {created : Bool}
    (hRun :
      fs.create memory disk name initialSize.toInt =
        some (created, disk')) :
    (created = false ∧ disk' = disk) ∨
    ∃ (i : Fin NumSectors) (j : Fin NumDirEntries),
      disk.directory.freeIndex = some j ∧
      created = true ∧
      disk'.Accounted Accounting.accepted ∧
      fs.MountedOn disk' ∧
      disk'.directory =
        disk.directory.set j
          ((disk.directory.table j).assign name i) := by
  have hFails :
      fs.create memory disk name initialSize.toInt =
        some (false, disk) →
      created = false ∧ disk' = disk := by
    intro hFail
    rw [hFail] at hRun
    cases hRun
    exact ⟨rfl, rfl⟩
  have hTables := hKept.tables
  cases hAbsent : disk.directory.findIndex name with
  | some k =>
      have hFound := (hKept.find_eq hAbsent).2
      exact Or.inl (hFails (create_of_found hTables hMounted
        memory (by omega) _))
  | none =>
      cases hFree : disk.freeMap.freeBits with
      | nil =>
          exact Or.inl (hFails (create_of_no_sector hTables
            hMounted memory hAbsent hFree _))
      | cons i rest =>
          cases hEntry : disk.directory.freeIndex with
          | none =>
              exact Or.inl (hFails (create_of_full hTables
                hMounted memory hAbsent hFree hEntry _))
          | some j =>
              have hFills := create_fills_entry hKept hMounted
                hAbsent hFree hEntry hRun
              exact hFills.imp_right fun hNew =>
                ⟨i, j, rfl, hNew⟩

/- Removing a file clears the mark of its entry. -/
theorem remove_clears
    (hKept : disk.Accounted Accounting.accepted)
    (hMounted : fs.MountedOn disk)
    {removed : Bool}
    (hRun :
      fs.remove memory disk name = some (removed, disk')) :
    disk'.Accounted Accounting.accepted ∧
      fs.MountedOn disk' ∧
      disk'.directory = (disk.directory.remove name).2 := by
  cases hFind : disk.directory.findIndex name with
  | none =>
      rw [remove_of_absent hKept.tables hMounted memory hFind]
        at hRun
      cases hRun
      refine ⟨hKept, hMounted, ?_⟩
      rw [Directory.remove, hFind]
  | some i =>
      rcases remove_accounted hKept hMounted memory hFind with
        ⟨disk₁, hSpec, hKept₁, hMounted₁, hDir, _⟩
      rw [hSpec] at hRun
      cases hRun
      exact ⟨hKept₁, hMounted₁, hDir⟩

end FileSystem

end Nachos

------------------------------------
-- Runs
------------------------------------

namespace Nachos

open Bytes

/-
  A file system with what is remembered of its entries: the
  last byte of the name in the memory that was formatted, and
  the name of the file that the entry was last given to.
-/
structure NamedFiles where
  fs : FileSystem
  disk : Disk
  left : Fin NumDirEntries → Byte
  created : Fin NumDirEntries → CString

namespace NamedFiles

variable {s : NamedFiles}

inductive Action
| format (memory : Memory)
| create
    (memory : Memory)
    (name : CString)
    (initialSize : BitVec 32)
| remove (memory : Memory) (name : CString)

/- The last bytes of the names in fresh memory. -/
def lastBytes
    (memory : Memory)
    (i : Fin NumDirEntries) :
    Byte :=
  ((memory.directory 1).table i).name
    (Fin.last FileNameMaxLen)

/- A new file system on a disk. -/
def formatted
    (memory : Memory)
    (disk : Disk)
    (created : Fin NumDirEntries → CString) :
    Option NamedFiles := do
  let (fs, disk) ← FileSystem.format memory disk
  some
    { fs := fs
      disk := disk
      left := lastBytes memory
      created := created }

/- The names after a file was created, if it was. -/
def named
    (s : NamedFiles)
    (ok : Bool)
    (name : CString) :
    Fin NumDirEntries → CString :=
  match ok, s.disk.directory.freeIndex with
  | true, some j => Function.update s.created j name
  | _, _ => s.created

theorem named_of_freeIndex
    {j : Fin NumDirEntries}
    (hEntry : s.disk.directory.freeIndex = some j)
    {name : CString} :
    s.named true name = Function.update s.created j name := by
  simp only [named, hEntry]

def step
    (s : NamedFiles) :
    Action → Option NamedFiles
| .format memory => formatted memory s.disk s.created
| .create memory name initialSize => do
    let (ok, disk) ←
      s.fs.create memory s.disk name initialSize.toInt
    some { s with disk := disk, created := s.named ok name }
| .remove memory name => do
    let (_, disk) ← s.fs.remove memory s.disk name
    some { s with disk := disk }

theorem step_create
    {memory : Memory}
    {name : CString}
    {initialSize : BitVec 32}
    {ok : Bool}
    {disk : Disk}
    (hRun :
      s.fs.create memory s.disk name initialSize.toInt =
        some (ok, disk)) :
    s.step (.create memory name initialSize) =
      some { s with
        disk := disk, created := s.named ok name } := by
  rw [step, hRun]
  rfl

/- Any calls from a formatted disk on. -/
def system : Transition.System NamedFiles Action where
  init := fun s =>
    ∃ memory disk created,
      formatted memory disk created = some s
  allowed := fun _ _ => True
  step := step

/-
  Every name in use has a zero in its array, and the names
  that are listed are the names of the files up to the limit.
-/
structure NamesEnd
    (s : NamedFiles) : Prop where
  terminated :
    ∀ i, (s.disk.directory.table i).isInUse = true →
      ∃ k, (s.disk.directory.table i).name k = 0
  listed :
    ∀ memory,
      s.fs.list memory s.disk =
        some (some
          (((List.finRange NumDirEntries).filter fun i =>
            (s.disk.directory.table i).isInUse).map fun i =>
              (s.created i).truncated))

/- What is known of the entries in every run. -/
structure Stores
    (s : NamedFiles) : Prop where
  kept : s.disk.Accounted Accounting.accepted
  mounted : s.fs.MountedOn s.disk
  last :
    ∀ i, (s.disk.directory.table i).name
      (Fin.last FileNameMaxLen) = s.left i
  name :
    ∀ i, (s.disk.directory.table i).isInUse = true →
      (s.disk.directory.table i).storedName =
        (s.created i).truncated

theorem stores_of_formatted
    {memory : Memory}
    {disk : Disk}
    {created : Fin NumDirEntries → CString}
    (hRun : formatted memory disk created = some s) :
    s.Stores := by
  rcases FileSystem.format_writes memory disk with
    ⟨fs, disk', hFormat, hDisk, hMounted, hDir⟩
  rw [formatted, hFormat] at hRun
  cases hRun
  refine ⟨hDisk.accepted, hMounted, ?_, ?_⟩
  · intro i
    rw [hDir]
    rfl
  · intro i hUsed
    rw [hDir] at hUsed
    cases hUsed

namespace Stores

variable {s t : NamedFiles}

theorem create
    (hStores : s.Stores)
    {memory : Memory}
    {name : CString}
    {initialSize : BitVec 32}
    (hStep :
      s.step (.create memory name initialSize) = some t) :
    t.Stores := by
  rcases Option.bind_eq_some_iff.mp hStep with
    ⟨⟨ok, disk⟩, hRun, hEq⟩
  cases hEq
  rcases FileSystem.create_fills hStores.kept hStores.mounted
      hRun with
    ⟨rfl, rfl⟩ | ⟨i, j, hEntry, rfl, hKept, hMounted, hDir⟩
  · exact hStores
  · refine ⟨hKept, hMounted, ?_, ?_⟩
    · intro k
      rw [hDir]
      by_cases hEq : k = j
      · subst hEq
        rw [Directory.table_set, DirectoryEntry.last_assign]
        exact hStores.last k
      · rw [Directory.table_set_of_ne _ hEq]
        exact hStores.last k
    · intro k hUsed
      rw [hDir] at hUsed ⊢
      rw [named_of_freeIndex hEntry]
      dsimp only
      by_cases hEq : k = j
      · subst hEq
        rw [Directory.table_set,
          DirectoryEntry.storedName_assign,
          Function.update_self]
      · rw [Directory.table_set_of_ne _ hEq] at hUsed ⊢
        rw [Function.update_of_ne hEq]
        exact hStores.name k hUsed

theorem remove
    (hStores : s.Stores)
    {memory : Memory}
    {name : CString}
    (hStep : s.step (.remove memory name) = some t) :
    t.Stores := by
  rcases Option.bind_eq_some_iff.mp hStep with
    ⟨⟨ok, disk⟩, hRun, hEq⟩
  cases hEq
  rcases FileSystem.remove_clears hStores.kept
      hStores.mounted hRun with ⟨hKept, hMounted, hDir⟩
  refine ⟨hKept, hMounted, ?_, ?_⟩
  · intro i
    rw [hDir]
    rcases s.disk.directory.table_remove name i with
      hSame | hCleared
    · rw [hSame]
      exact hStores.last i
    · rw [hCleared]
      exact hStores.last i
  · intro i hUsed
    rw [hDir] at hUsed ⊢
    rcases s.disk.directory.table_remove name i with
      hSame | hCleared
    · rw [hSame] at hUsed ⊢
      exact hStores.name i hUsed
    · rw [hCleared] at hUsed
      cases hUsed

end Stores

theorem stores_of_reachable
    {s : NamedFiles}
    (hReach : system.Reachable s) :
    s.Stores := by
  refine hReach.invariant ?_ ?_
  · rintro s ⟨memory, disk, created, hRun⟩
    exact stores_of_formatted hRun
  · intro s action t hStores _ hStep
    cases action with
    | format memory => exact stores_of_formatted hStep
    | create memory name initialSize =>
        exact hStores.create hStep
    | remove memory name => exact hStores.remove hStep

end NamedFiles

end Nachos

------------------------------------
-- Names That End
------------------------------------

namespace Nachos

open Bytes

/- A zero is among the characters, or it is the last byte. -/
theorem DirectoryEntry.exists_zero_iff
    (e : DirectoryEntry) :
    (∃ k, e.name k = 0) ↔
      e.storedName.length < FileNameMaxLen ∨
      e.name (Fin.last FileNameMaxLen) = 0 := by
  rw [storedName, length_firstChars_lt_iff]
  simp only [Nat.zero_add]
  constructor
  · rintro ⟨k, hZero⟩
    rcases Fin.eq_castSucc_or_eq_last k with ⟨j, rfl⟩ | rfl
    · refine Or.inl ⟨j, j.2, ?_⟩
      rw [nameChar, dif_pos (Nat.lt_succ_of_lt j.2)]
      exact hZero
    · exact Or.inr hZero
  · rintro (⟨k, hk, hZero⟩ | hZero)
    · rw [nameChar, dif_pos (Nat.lt_succ_of_lt hk)] at hZero
      exact ⟨_, hZero⟩
    · exact ⟨_, hZero⟩

namespace Directory

variable {tableSize : Nat}

/- The names that are listed when all of them end. -/
theorem list_eq
    {d : Directory tableSize}
    (hEnd :
      ∀ i, (d.table i).isInUse = true →
        ∃ k, (d.table i).name k = 0) :
    d.list =
      some (((List.finRange tableSize).filter fun i =>
        (d.table i).isInUse).map fun i =>
          (d.table i).storedName) := by
  have hEntries :
      (do
        let i ← (List.finRange tableSize).filter fun i =>
          (d.table i).isInUse
        pure i.1) =
      ((List.finRange tableSize).filter fun i =>
        (d.table i).isInUse).map Fin.val :=
    List.flatMap_pure_eq_map _ _
  rw [list, hEntries]
  refine mapM_map_eq_some ?_
  intro i hi
  have hUsed : (d.table i).isInUse = true :=
    (List.mem_filter.mp hi).2
  have hZero := ((d.table i).exists_zero_iff).mp
    (hEnd i hUsed)
  apply untilZero_eq_firstChars
  · intro k hk
    rw [Nat.zero_add]
    exact d.getElem_nameBytes i hk
  · refine hZero.imp_right ?_
    intro hLast
    rw [Nat.zero_add, DirectoryEntry.nameChar,
      dif_pos (Nat.lt_succ_self _)]
    exact hLast

end Directory

namespace NamedFiles

variable {s : NamedFiles}

/- Is a name ended inside of its array? -/
def Ends
    (s : NamedFiles)
    (i : Fin NumDirEntries) : Prop :=
  (s.created i).chars.length < FileNameMaxLen ∨ s.left i = 0

theorem Stores.exists_zero_iff
    (hStores : s.Stores)
    {i : Fin NumDirEntries}
    (hUsed : (s.disk.directory.table i).isInUse = true) :
    (∃ k, (s.disk.directory.table i).name k = 0) ↔
      s.Ends i := by
  rw [DirectoryEntry.exists_zero_iff, hStores.name i hUsed,
    hStores.last i, CString.truncated, List.length_take, Ends]
  refine or_congr_left ?_
  omega

/- The first file on a disk that was formatted. -/
theorem exists_first_file
    (memory : Memory)
    (name : CString) :
    ∃ s t,
      formatted memory (fun _ _ => 0) (fun _ => name) =
        some s ∧
      s.step (.create memory name 1) = some t ∧
      system.Reachable t ∧
      (∃ i, (t.disk.directory.table i).isInUse = true) ∧
      (∀ i, t.created i = name) ∧
      t.left = lastBytes memory := by
  rcases FileSystem.format_spec memory (fun _ _ => 0) with
    ⟨fs, disk, hFormat, hDisk, hMounted, hEmpty⟩
  rcases hDisk.room_of_empty hEmpty with
    ⟨i, i', rest, j, hFree, hEntry⟩
  rcases FileSystem.create_on_empty hDisk hMounted hEmpty
      memory name hFree with
    ⟨disk', hCreate, hSingle, _⟩
  rcases hSingle.found with ⟨k, hFind, _⟩
  have hFirst :
      formatted memory (fun _ _ => 0) (fun _ => name) =
        some ⟨fs, disk, lastBytes memory, fun _ => name⟩ := by
    rw [formatted, hFormat]
    rfl
  have hSize : (1 : BitVec 32).toInt = 1 := by
    decide
  generalize hs : (⟨fs, disk, lastBytes memory,
    fun _ => name⟩ : NamedFiles) = s at hFirst
  have hEntry' : s.disk.directory.freeIndex = some j := by
    rw [← hs]
    exact hEntry
  have hCreate' :
      s.fs.create memory s.disk name (1 : BitVec 32).toInt =
        some (true, disk') := by
    rw [← hs, hSize]
    exact hCreate
  have hStep : s.step (.create memory name 1) =
      some ⟨fs, disk', lastBytes memory, fun _ => name⟩ := by
    rw [step_create hCreate', named_of_freeIndex hEntry',
      ← hs]
    dsimp only
    rw [Function.update_eq_self j]
  have hReach : system.Reachable s :=
    .of_init ⟨memory, _, _, hFirst⟩
  exact ⟨s, _, hFirst, hStep,
    hReach.of_step (a := .create memory name 1) trivial hStep,
    ⟨k, (Directory.findIndex_eq_some hFind).2⟩,
    fun _ => rfl, rfl⟩

/-
  After any calls the names end and are listed as they were
  given just if every name in use is shorter than the limit
  or was put before a zero that the memory of the formatted
  directory happened to hold.
-/
theorem namesEnd_iff
    (hReach : system.Reachable s) :
    s.NamesEnd ↔
      ∀ i, (s.disk.directory.table i).isInUse = true →
        (s.created i).chars.length < FileNameMaxLen ∨
          s.left i = 0 := by
  have hStores := stores_of_reachable hReach
  constructor
  · intro hEnd i hUsed
    exact (hStores.exists_zero_iff hUsed).mp
      (hEnd.terminated i hUsed)
  · intro hEnds
    have hZero : ∀ i,
        (s.disk.directory.table i).isInUse = true →
        ∃ k, (s.disk.directory.table i).name k = 0 :=
      fun i hUsed =>
        (hStores.exists_zero_iff hUsed).mpr (hEnds i hUsed)
    refine ⟨hZero, ?_⟩
    intro memory
    rw [FileSystem.list,
      FileSystem.fetch_directory hStores.kept.tables
        hStores.mounted,
      Option.bind_eq_bind, Option.bind_some,
      Directory.list_eq hZero]
    refine congrArg (fun names => some (some names)) ?_
    apply List.map_congr_left
    intro i hi
    exact hStores.name i (List.mem_filter.mp hi).2

theorem namesEnd_first_file :
    ∃ t,
      system.Reachable t ∧
      (∃ i, (t.disk.directory.table i).isInUse = true) ∧
      t.NamesEnd := by
  rcases exists_first_file Memory.zero CString.a with
    ⟨s, t, _, _, hReach, hUsed, hCreated, _⟩
  refine ⟨t, hReach, hUsed, (namesEnd_iff hReach).mpr ?_⟩
  intro i _
  rw [hCreated i]
  exact Or.inl (by decide)

/- Memory without a zero. -/
def onesMemory : Memory :=
  fun _ _ => 1

/- The name "aaaaaaaaa" of nine characters. -/
def nineCharacters : CString :=
  ⟨List.replicate 9 0x61, by decide⟩

theorem lastBytes_onesMemory
    (i : Fin NumDirEntries) :
    lastBytes onesMemory i = 1 := by
  have hByte := Directory.image_nameByte
    (Directory.image.symm fun _ => 1) i
    (Fin.last FileNameMaxLen)
  rw [Equiv.apply_symm_apply] at hByte
  exact hByte.symm

/- The name of nine characters is not ended. -/
theorem nine_characters_run_on :
    ∃ s t i,
      formatted onesMemory (fun _ _ => 0)
        (fun _ => nineCharacters) = some s ∧
      s.step (.create onesMemory nineCharacters 1) = some t ∧
      system.Reachable t ∧
      (t.disk.directory.table i).isInUse = true ∧
      (∀ k, (t.disk.directory.table i).name k ≠ 0) ∧
      ¬ t.NamesEnd := by
  rcases exists_first_file onesMemory nineCharacters with
    ⟨s, t, hFirst, hStep, hReach, ⟨i, hUsed⟩, hCreated,
      hLeft⟩
  have hStores := stores_of_reachable hReach
  have hRunsOn : ¬ t.Ends i := by
    rw [Ends, hCreated i, hLeft, lastBytes_onesMemory]
    decide
  refine ⟨s, t, i, hFirst, hStep, hReach, hUsed, ?_, ?_⟩
  · intro k hZero
    exact hRunsOn ((hStores.exists_zero_iff hUsed).mp
      ⟨k, hZero⟩)
  · intro hEnd
    exact hRunsOn ((hStores.exists_zero_iff hUsed).mp
      (hEnd.terminated i hUsed))

end NamedFiles

end Nachos
