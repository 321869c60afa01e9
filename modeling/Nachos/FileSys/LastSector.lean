import Nachos.FileSys.RequestBounds

/-
  What a write puts behind the end of a file.

  Whole sectors are written back, also the last sector of a
  file that ends inside of it.  The rest of this sector comes
  out of the memory that the buffer was allocated in, so the
  disk is determined just if the write does not touch it.

  Main declarations:
    * `OpenFile.writeAt_slack`
    * `OpenFile.writeAt_determined_iff`
    * `OpenFile.memory_reaches_disk`
-/

------------------------------------
-- Sectors That Are Written Back
------------------------------------

namespace Nachos

open Bytes CInt

namespace OpenFile

variable {file : OpenFile}

/- Only the bytes of the buffer that are written count. -/
theorem writeSectors_congr
    (disk : Disk)
    (firstSector : Int)
    {buf buf' : Buffer}
    {n : Nat}
    (hAgree : ∀ j < n * SectorSize, buf' j = buf j) :
    file.writeSectors disk firstSector buf' n =
      file.writeSectors disk firstSector buf n := by
  induction n with
  | zero => rfl
  | succ n ih =>
      have hSector : buf'.sectorAt (n * SectorSize) =
          buf.sectorAt (n * SectorSize) := by
        funext i
        apply hAgree
        have hi := i.2
        simp only [SectorSize] at hi ⊢
        omega
      have hBefore := ih (fun j hj => hAgree j (by
        simp only [SectorSize] at hj ⊢
        omega))
      unfold writeSectors
      rw [hBefore, hSector]

theorem exists_writeSectors
    (hWf : file.hdr.WellFormed)
    (disk : Disk)
    (buf : Buffer)
    {first n : Nat}
    (hLast : first + n ≤ file.hdr.numSectors.toNat) :
    ∃ disk', file.writeSectors disk first buf n =
      some disk' := by
  apply Option.isSome_iff_exists.mp
  rw [writeSectors_isSome_iff]
  intro a ha
  rcases mem_lookups.mp ha with ⟨k, hk, rfl⟩
  have hTable : first + k < file.hdr.numSectors.toNat := by
    omega
  have hSector := hWf.sector_lt _ hTable
  exact ⟨_, byteToSector_round hWf hTable, by omega, by omega⟩

/- The last sector is not written again. -/
theorem exists_writeSectors_succ
    (hWf : file.hdr.WellFormed)
    (disk : Disk)
    (buf : Buffer)
    (first n : Nat)
    (hTable : first + n < file.hdr.numSectors.toNat) :
    ∃ disk', file.writeSectors disk first buf (n + 1) =
        some disk' ∧
      ∀ offset < SectorSize,
        disk'.byteAt (file.hdr.sectorAt (first + n)) offset =
          buf (n * SectorSize + offset) := by
  rcases exists_writeSectors hWf disk buf
    (Nat.le_of_lt hTable) with ⟨disk', hRun⟩
  have hSector := hWf.sector_lt _ hTable
  refine ⟨Function.update disk' ⟨_, hSector⟩
    (buf.sectorAt (n * SectorSize)), ?_, ?_⟩
  · simp only [writeSectors, hRun,
      byteToSector_round hWf hTable,
      SynchDisk.writeSector_natCast disk' hSector,
      Option.bind_eq_bind, Option.bind_some]
  · intro offset hOffset
    simp [Disk.byteAt, hSector, hOffset, Buffer.sectorAt]

------------------------------------
-- Determined Writes
------------------------------------

variable {source : List Byte}
variable {n : Int}
variable {p : Nat}

/- The whole sectors of a file end here. -/
def wholeSectors
    (length : Nat) :
    Nat :=
  length / SectorSize * SectorSize

/- A write that reaches the rest of the last sector. -/
theorem writeAt_slack
    (hWf : file.hdr.WellFormed)
    (memory : Memory)
    (disk : Disk)
    (hSource : n ≤ source.length)
    (hEnd : p + n < 2 ^ 31)
    (hn : 0 < n)
    (hp : p < file.hdr.length)
    (hTouched :
      wholeSectors file.hdr.length <
        min (p + n) file.hdr.length) :
    ∃ count disk',
      file.writeAt memory disk source n p =
        some (count, disk') ∧
      disk'.byteAt
          (file.hdr.sectorAt (file.hdr.length / SectorSize))
          (file.hdr.length % SectorSize) =
        memory 0
          (file.hdr.length - p / SectorSize * SectorSize) := by
  rcases writeAt_eq hWf memory disk hSource hEnd hn hp with
    ⟨k, last, buf, hK, hLast, hWrite, _, hBehind⟩
  have hCount := FixedArray.count_of_inside hn hp
  have hLastEq : last = file.hdr.length / SectorSize := by
    simp only [wholeSectors, SectorSize] at *
    omega
  have hTable : last < file.hdr.numSectors.toNat := by
    rw [hLast]
    apply hWf.div_lt
    omega
  have hFirst : p / SectorSize ≤ last := by
    rw [hLastEq]
    exact Nat.div_le_div_right (Nat.le_of_lt hp)
  have hIndex : p / SectorSize + (last - p / SectorSize) =
      last := by
    omega
  have hRounds : 1 + last - p / SectorSize =
      last - p / SectorSize + 1 := by
    omega
  rcases exists_writeSectors_succ hWf disk buf
    (p / SectorSize) (last - p / SectorSize)
    (by rw [hIndex]; exact hTable) with ⟨disk', hRun, hBytes⟩
  refine ⟨k, disk', ?_, ?_⟩
  · rw [hWrite, hRounds, hRun]
    rfl
  · have hByte := hBytes (file.hdr.length % SectorSize)
      (Nat.mod_lt _ (by decide))
    have hSlack := hBehind file.hdr.length (by
      simp only [SectorSize] at *
      omega) (Nat.le_refl _)
    have hPlace :
        (last - p / SectorSize) * SectorSize +
            file.hdr.length % SectorSize =
          file.hdr.length - p / SectorSize * SectorSize := by
      simp only [SectorSize] at *
      omega
    rw [hIndex, hLastEq] at hByte
    rw [hLastEq] at hPlace
    rw [hByte, hPlace, hSlack]

/- A write that stays before it. -/
theorem writeAt_whole
    (hWf : file.hdr.WellFormed)
    (memory memory' : Memory)
    (disk : Disk)
    (hSource : n ≤ source.length)
    (hEnd : p + n < 2 ^ 31)
    (hn : 0 < n)
    (hp : p < file.hdr.length)
    (hWhole :
      min (p + n) file.hdr.length ≤
        wholeSectors file.hdr.length) :
    file.writeAt memory disk source n p =
      file.writeAt memory' disk source n p := by
  rcases writeAt_eq hWf memory disk hSource hEnd hn hp with
    ⟨k, last, buf, hK, hLast, hWrite, hBuf, _⟩
  rcases writeAt_eq hWf memory' disk hSource hEnd hn hp with
    ⟨k', last', buf', hK', hLast', hWrite', hBuf', _⟩
  have hCount := FixedArray.count_of_inside hn hp
  have hEqK : k' = k := hK'.trans hK.symm
  subst hEqK
  have hEqLast : last' = last := hLast'.trans hLast.symm
  subst hEqLast
  rw [hWrite, hWrite']
  congr 1
  apply writeSectors_congr
  intro j hj
  have hHigh : p / SectorSize * SectorSize + j <
      (last' + 1) * SectorSize := by
    simp only [SectorSize] at *
    omega
  have hIn : p / SectorSize * SectorSize + j <
      file.hdr.length := by
    simp only [wholeSectors, SectorSize] at *
    omega
  have hByte := hBuf (p / SectorSize * SectorSize + j)
    (Nat.le_add_right _ _) hHigh hIn
  have hByte' := hBuf' (p / SectorSize * SectorSize + j)
    (Nat.le_add_right _ _) hHigh hIn
  rw [Nat.add_sub_cancel_left] at hByte hByte'
  rw [hByte, hByte']

/-
  The disk after a write does not depend on memory, just if
  the write is empty or ends in the whole sectors.
-/
theorem writeAt_determined_iff
    (hWf : file.hdr.WellFormed)
    (disk : Disk)
    (hSource : n ≤ source.length)
    (hEnd : p + n < 2 ^ 31) :
    (∀ memory memory',
      file.writeAt memory disk source n p =
        file.writeAt memory' disk source n p) ↔
      n ≤ 0 ∨ file.hdr.length ≤ p ∨
        min (p + n) file.hdr.length ≤
          wholeSectors file.hdr.length := by
  constructor
  · intro hSame
    by_contra hNot
    have hn : 0 < n := by
      omega
    have hp : p < file.hdr.length := by
      omega
    have hTouched : wholeSectors file.hdr.length <
        min (p + n) (file.hdr.length : Int) := by
      omega
    rcases writeAt_slack hWf (fun _ _ => 0) disk hSource hEnd
      hn hp hTouched with ⟨count, disk₀, hRun, hByte⟩
    rcases writeAt_slack hWf (fun _ _ => 1) disk hSource hEnd
      hn hp hTouched with ⟨count', disk₁, hRun', hByte'⟩
    have hEq := (hRun.symm.trans (hSame _ _)).trans hRun'
    cases hEq
    have hAbsurd : (0 : Byte) = 1 := hByte.symm.trans hByte'
    exact absurd hAbsurd (by decide)
  · intro hHolds memory memory'
    by_cases hEmpty : n ≤ 0 ∨ (p : Int) ≥ file.hdr.length
    · unfold writeAt
      rw [hWf.fileLength_eq, if_pos hEmpty, if_pos hEmpty]
    · exact writeAt_whole hWf memory memory' disk hSource hEnd
        (by omega) (by omega) (by omega)

/- An open file of 200 bytes, in the sectors 5 and 6. -/
def twoSectorFile :
    OpenFile :=
  ⟨⟨200, 2, fun i => 5 + i.1⟩, 0⟩

theorem twoSectorFile_wellFormed :
    twoSectorFile.hdr.WellFormed :=
  ⟨by decide, by decide, by decide⟩

/-
  Three bytes are written inside of the first sector.  The
  disk is the same for every memory.
-/
theorem write_determined_in_first_sector :
    ∃ disk', disk'.byteAt 5 61 = 8 ∧
      ∀ memory,
        twoSectorFile.writeAt memory (fun _ _ => 0) [7, 8, 9]
          3 (60 : Nat) = some (3, disk') := by
  have hRun :
      (twoSectorFile.writeAt (fun _ _ => 0) (fun _ _ => 0)
        [7, 8, 9] 3 (60 : Nat)).any (fun r =>
          r.1 = 3 ∧ r.2.byteAt 5 61 = 8) = true := by
    decide +kernel
  have hSame := (writeAt_determined_iff (n := 3) (p := 60)
    twoSectorFile_wellFormed (fun _ _ => 0)
    (by decide : (3 : Int) ≤ [(7 : Byte), 8, 9].length)
    (by decide)).mpr (.inr (.inr (by decide)))
  rcases (Option.any_eq_true _ _).mp hRun with
    ⟨⟨count, disk'⟩, hWrite, hByte⟩
  rw [decide_eq_true_eq] at hByte
  rcases hByte with ⟨rfl, hByte⟩
  exact ⟨disk', hByte, fun memory =>
    (hSame memory _).trans hWrite⟩

/- An open file of ten bytes. -/
def tenByteFile :
    OpenFile :=
  ⟨FileHeader.tenBytes, 0⟩

theorem tenByteFile_wellFormed :
    tenByteFile.hdr.WellFormed :=
  ⟨by decide, by decide, by decide⟩

/-
  One byte is written at the start of the file, with zeros
  and with ones in memory.
-/
theorem memory_reaches_disk :
    ∃ count disk₀ count' disk₁,
      tenByteFile.writeAt (fun _ _ => 0) (fun _ _ => 0) [7] 1
        (0 : Nat) = some (count, disk₀) ∧
      tenByteFile.writeAt (fun _ _ => 1) (fun _ _ => 0) [7] 1
        (0 : Nat) = some (count', disk₁) ∧
      disk₀.byteAt 0 10 = 0 ∧ disk₁.byteAt 0 10 = 1 := by
  have hTouched : (wholeSectors tenByteFile.hdr.length : Int) <
      min ((0 : Nat) + (1 : Int)) tenByteFile.hdr.length := by
    decide
  rcases writeAt_slack tenByteFile_wellFormed (fun _ _ => 0)
    (fun _ _ => 0) (by decide : (1 : Int) ≤ [(7 : Byte)].length)
    (by decide) (by decide) (by decide) hTouched with
    ⟨count, disk₀, hRun, hByte⟩
  rcases writeAt_slack tenByteFile_wellFormed (fun _ _ => 1)
    (fun _ _ => 0) (by decide : (1 : Int) ≤ [(7 : Byte)].length)
    (by decide) (by decide) (by decide) hTouched with
    ⟨count', disk₁, hRun', hByte'⟩
  exact ⟨count, disk₀, count', disk₁, hRun, hRun', hByte,
    hByte'⟩

end OpenFile

end Nachos
