import Nachos.FileSys.Ownership

/-
  What the sectors of a file are, as a parameter.

  On a consistent disk every header is well formed.  Less is
  enough for the free map and the directory to stay in order:
  every file holds its header and the sectors that giving it
  back will clear.  What creating and removing files does to
  a disk is proved once, for every such reading of a header.

  Main declarations:
    * `Disk.Accounted`
    * `Accounting.accepted`
    * `Disk.Accounted.of_new_file`
    * `Disk.Accounted.of_removed_file`
    * `FileHeader.allocate_accepted`
-/

------------------------------------
-- Holdings
------------------------------------

namespace Nachos

open Ownership CInt

/-
  Which headers are accepted, and which data sectors such a
  header holds: the ones that are cleared when it is given
  back.
-/
structure Accounting where
  Good : FileHeader → Prop
  data : FileHeader → List Nat
  data_eq : ∀ hdr, hdr.WellFormed → data hdr = hdr.sectors
  release :
    ∀ {hdr : FileHeader} {freeMap : BitMap NumSectors}
      {held : List Nat},
      Good hdr →
      Tracks freeMap.IsMarked (data hdr ++ held) →
      ∃ freeMap',
        hdr.deallocate freeMap = some freeMap' ∧
        Tracks freeMap'.IsMarked held

/- Every header is well formed. -/
def Accounting.strict : Accounting where
  Good := FileHeader.WellFormed
  data := FileHeader.sectors
  data_eq := fun _ _ => rfl
  release := FileHeader.deallocate_tracks

namespace Disk

/- What the file with its header in sector `s` holds. -/
def holdingOf
    (a : Accounting)
    (disk : Disk)
    (s : Nat) :
    List Nat :=
  s :: a.data (disk.headerAt s)

/- What all files hold. -/
def holdings
    (a : Accounting)
    (disk : Disk) :
    List Nat :=
  disk.fileSectors.flatMap (disk.holdingOf a)

/- The ownership invariant for a reading of the headers. -/
structure Accounted
    (a : Accounting)
    (disk : Disk) : Prop where
  tables : disk.TablesWellFormed
  good : ∀ s ∈ disk.fileSectors, a.Good (disk.headerAt s)
  tracks : Tracks disk.freeMap.IsMarked (disk.holdings a)

theorem consistent_iff_accounted
    {disk : Disk} :
    disk.Consistent ↔ disk.Accounted Accounting.strict := by
  constructor
  · intro hDisk
    exact ⟨hDisk.tables, hDisk.wellFormed, hDisk.tracks⟩
  · intro hKept
    exact ⟨hKept.good, hKept.tables.freeMap_length,
      hKept.tables.directory_length, hKept.tracks⟩

theorem Consistent.accounted
    {disk : Disk}
    (hDisk : disk.Consistent) :
    disk.Accounted Accounting.strict :=
  consistent_iff_accounted.mp hDisk

namespace Accounted

variable {a : Accounting}
variable {disk disk' : Disk}
variable {s : Nat}

theorem lt_of_mem
    (hKept : disk.Accounted a)
    (hs : s ∈ disk.fileSectors) :
    s < NumSectors := by
  have hMem : s ∈ disk.holdings a :=
    List.mem_flatMap.mpr ⟨s, hs, List.mem_cons_self⟩
  rcases (hKept.tracks.marked_iff s).mpr hMem with ⟨h, _⟩
  exact h

/- A name that is found gives the sector of its header. -/
theorem find_eq
    (hKept : disk.Accounted a)
    {name : CString}
    {i : Fin NumDirEntries}
    (hFind : disk.directory.findIndex name = some i) :
    (disk.directory.table i).sector.toNat ∈
        disk.directory.fileSectors ∧
      disk.directory.find name =
        ((disk.directory.table i).sector.toNat : Int) := by
  have hUsed := (Directory.findIndex_eq_some hFind).2
  have hMem : (disk.directory.table i).sector.toNat ∈
      disk.directory.fileSectors :=
    (disk.directory.mem_fileSectors_iff _).mpr ⟨i, hUsed, rfl⟩
  have hLt := hKept.lt_of_mem (mem_fileSectors_of_mem hMem)
  refine ⟨hMem, ?_⟩
  simp only [NumSectors, SectorsPerTrack, NumTracks] at hLt
  simp only [Directory.find, hFind]
  exact toInt_eq_toNat (by omega)

/- A sector that is not marked is held by no file. -/
theorem not_mem_of_clear
    (hKept : disk.Accounted a)
    {i : Fin NumSectors}
    (hClear : disk.freeMap.bit i = false)
    (hs : s ∈ disk.fileSectors) :
    i.1 ∉ disk.holdingOf a s := by
  intro hMem
  have hMarked := (hKept.tracks.marked_iff i.1).mpr
    (List.mem_flatMap.mpr ⟨s, hs, hMem⟩)
  rw [BitMap.isMarked_val, hClear] at hMarked
  exact Bool.noConfusion hMarked

/- The system files hold the sectors of their tables. -/
theorem holdingOf_freeMap
    (hKept : disk.Accounted a) :
    disk.holdingOf a FreeMapSector =
      disk.sectorsOf FreeMapSector := by
  rw [holdingOf, sectorsOf,
    a.data_eq _ hKept.tables.freeMap_wellFormed]

theorem holdingOf_directory
    (hKept : disk.Accounted a) :
    disk.holdingOf a DirectorySector =
      disk.sectorsOf DirectorySector := by
  rw [holdingOf, sectorsOf,
    a.data_eq _ hKept.tables.directory_wellFormed]

/- Headers are no data of the system files. -/
theorem header_not_mem
    (hKept : disk.Accounted a)
    (hs : s ∈ disk.fileSectors) :
    s ∉ (disk.headerAt FreeMapSector).sectors ∧
      s ∉ (disk.headerAt DirectorySector).sectors := by
  have hNodup : (disk.fileSectors.flatMap fun s =>
      s :: a.data (disk.headerAt s)).Nodup :=
    hKept.tracks.nodup
  rw [← a.data_eq _ hKept.tables.freeMap_wellFormed,
    ← a.data_eq _ hKept.tables.directory_wellFormed]
  exact ⟨head_not_mem hNodup hs disk.freeMapSector_mem,
    head_not_mem hNodup hs disk.directorySector_mem⟩

/- It is enough to know the files up to their order. -/
theorem of_perm
    (files : List Nat)
    (hTables : disk.TablesWellFormed)
    (hFiles : disk.fileSectors.Perm files)
    (hGood : ∀ s ∈ files, a.Good (disk.headerAt s))
    (hTracks :
      Tracks disk.freeMap.IsMarked
        (files.flatMap (disk.holdingOf a))) :
    disk.Accounted a where
  tables := hTables
  good := fun s hs => hGood s (hFiles.mem_iff.mp hs)
  tracks := hTracks.perm (hFiles.flatMap_right _).symm

/- A new file brings its header and its data sectors. -/
theorem of_new_file
    (hKept : disk.Accounted a)
    (hTables : disk'.TablesWellFormed)
    {hdr : FileHeader}
    (hFiles :
      disk'.directory.fileSectors.Perm
        (s :: disk.directory.fileSectors))
    (hHdr : disk'.headerAt s = hdr)
    (hOld :
      ∀ t ∈ disk.fileSectors,
        disk'.headerAt t = disk.headerAt t)
    (hGood : a.Good hdr)
    (hTracks :
      Tracks disk'.freeMap.IsMarked
        (a.data hdr ++ s :: disk.holdings a)) :
    disk'.Accounted a := by
  have hHeld :
      disk.fileSectors.flatMap (disk'.holdingOf a) =
        disk.holdings a := by
    refine List.flatMap_congr fun t ht => ?_
    rw [holdingOf, holdingOf, hOld t ht]
  refine of_perm (s :: disk.fileSectors) hTables ?_ ?_ ?_
  · have hSystem := (hFiles.cons DirectorySector).cons
      FreeMapSector
    refine hSystem.trans ?_
    exact ((List.Perm.swap _ _ _).cons _).trans
      (List.Perm.swap _ _ _)
  · intro t ht
    rcases List.mem_cons.mp ht with rfl | ht
    · rwa [hHdr]
    · rw [hOld t ht]
      exact hKept.good t ht
  · rw [List.flatMap_cons, hHeld, holdingOf, hHdr]
    exact hTracks.perm List.perm_middle

/- A removed file leaves the sectors of the other files. -/
theorem of_removed_file
    (hKept : disk.Accounted a)
    (hTables : disk'.TablesWellFormed)
    (hFiles : ∀ t ∈ disk'.fileSectors, t ∈ disk.fileSectors)
    (hOld :
      ∀ t ∈ disk.fileSectors,
        disk'.headerAt t = disk.headerAt t)
    (hTracks :
      Tracks disk'.freeMap.IsMarked
        (disk'.fileSectors.flatMap (disk.holdingOf a))) :
    disk'.Accounted a := by
  have hHeld : disk'.holdings a =
      disk'.fileSectors.flatMap (disk.holdingOf a) := by
    refine List.flatMap_congr fun t ht => ?_
    rw [holdingOf, holdingOf, hOld t (hFiles t ht)]
  refine ⟨hTables, ?_, ?_⟩
  · intro t ht
    rw [hOld t (hFiles t ht)]
    exact hKept.good t (hFiles t ht)
  · rwa [hHeld]

end Accounted

end Disk

end Nachos

------------------------------------
-- Files of Every Size
------------------------------------

namespace Nachos

open Ownership CInt

namespace FileHeader

variable {hdr : FileHeader}

/- The data sectors that giving the file back clears. -/
def held
    (hdr : FileHeader) :
    List Nat :=
  (List.range hdr.numSectors.toInt.toNat).map hdr.sectorAt

/-
  Allocation accepts a negative size too.  Such a file has no
  sectors.
-/
def Accepted
    (hdr : FileHeader) : Prop :=
  hdr.WellFormed ∨ hdr.numSectors.toInt ≤ 0

theorem held_of_wellFormed
    (hWf : hdr.WellFormed) :
    hdr.held = hdr.sectors := by
  rw [held, hWf.numSectors_toInt, Int.toNat_natCast]
  rfl

theorem held_of_nonpos
    (hNone : hdr.numSectors.toInt ≤ 0) :
    hdr.held = [] := by
  rw [held, Int.toNat_of_nonpos hNone]
  rfl

theorem deallocate_accepted
    {freeMap : BitMap NumSectors}
    {owned : List Nat}
    (hAccepted : hdr.Accepted)
    (hTracks :
      Tracks freeMap.IsMarked (hdr.held ++ owned)) :
    ∃ freeMap',
      hdr.deallocate freeMap = some freeMap' ∧
      Tracks freeMap'.IsMarked owned := by
  rcases hAccepted with hWf | hNone
  · rw [held_of_wellFormed hWf] at hTracks
    exact deallocate_tracks hWf hTracks
  · rw [held_of_nonpos hNone] at hTracks
    refine ⟨freeMap, ?_, hTracks⟩
    rw [deallocate, Int.toNat_of_nonpos hNone]
    rfl

end FileHeader

/- Headers of every size that allocation lets through. -/
def Accounting.accepted : Accounting where
  Good := FileHeader.Accepted
  data := FileHeader.held
  data_eq := fun _ hWf => FileHeader.held_of_wellFormed hWf
  release := FileHeader.deallocate_accepted

theorem Disk.Consistent.accepted
    {disk : Disk}
    (hDisk : disk.Consistent) :
    disk.Accounted Accounting.accepted where
  tables := hDisk.tables
  good := fun s hs => Or.inl (hDisk.wellFormed s hs)
  tracks := by
    have hHeld : disk.holdings Accounting.accepted =
        disk.owned := by
      refine List.flatMap_congr fun s hs => ?_
      rw [holdingOf, sectorsOf,
        Accounting.data_eq _ _ (hDisk.wellFormed s hs)]
    rw [hHeld]
    exact hDisk.tracks

namespace FileHeader

/- The number of sectors that is stored for a negative size. -/
theorem numSectors_of_neg
    {size : BitVec 32}
    (hNeg : size.toInt < 0) :
    (BitVec.ofInt 32
      (divRoundUp size.toInt SectorSize)).toInt ≤ 0 := by
  have hLow := size.le_toInt
  have hSize : size.toInt = -(size.toInt.natAbs : Int) := by
    omega
  have hDiv := Nat.div_le_self size.toInt.natAbs SectorSize
  rw [hSize, divRoundUp_neg_natCast]
  generalize size.toInt.natAbs / SectorSize = count at hDiv
  rw [BitVec.toInt_ofInt_eq_self (by decide)]
  · omega
  · omega
  · omega

/- No size leads to a header that is not accepted. -/
theorem allocate_accepted
    {hdr hdr' : FileHeader}
    {freeMap freeMap' : BitMap NumSectors}
    {owned : List Nat}
    (hTracks : Tracks freeMap.IsMarked owned)
    {size : BitVec 32}
    (hRun :
      hdr.allocate freeMap size.toInt =
        some (true, hdr', freeMap')) :
    hdr'.Accepted ∧
      Tracks freeMap'.IsMarked (hdr'.held ++ owned) := by
  by_cases hNeg : size.toInt < 0
  · rw [allocate_of_neg hdr freeMap hNeg] at hRun
    simp only [Option.some.injEq, Prod.mk.injEq, true_and]
      at hRun
    rcases hRun with ⟨hHdr, rfl⟩
    have hNone : hdr'.numSectors.toInt ≤ 0 := by
      rw [← hHdr]
      exact numSectors_of_neg hNeg
    refine ⟨Or.inr hNone, ?_⟩
    rwa [held_of_nonpos hNone]
  · rcases Int.eq_ofNat_of_zero_le (Int.not_lt.mp hNeg) with
      ⟨n, hn⟩
    rw [hn] at hRun
    by_cases hRoom : freeMap.freeBits.length < sectorsFor n
    · rcases allocate_of_lt hdr hRoom with ⟨hdr₁, hFail⟩
      rw [hFail] at hRun
      cases hRun
    · by_cases hSize : n ≤ MaxFileSize
      · rcases allocate_tracks hdr hTracks hSize
            (Nat.not_lt.mp hRoom) with
          ⟨hdr₁, freeMap₁, hDone, hWf, _, _, hTracks'⟩
        rw [hDone] at hRun
        cases hRun
        rw [← held_of_wellFormed hWf] at hTracks'
        exact ⟨Or.inl hWf, hTracks'⟩
      · rw [allocate_of_gt hdr (Nat.not_le.mp hSize)
          (Nat.not_lt.mp hRoom)] at hRun
        cases hRun

end FileHeader

end Nachos
