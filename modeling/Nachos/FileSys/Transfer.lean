import Nachos.FileSys.OpenFile
import Nachos.Lib.FixedArray

/-
  Reads and writes of a well-formed file are transfers on a
  fixed-length array of bytes.

  The header is well formed, its sectors are distinct, the
  position is a natural number and the end of the request
  does not overflow.  Nothing is assumed about the memory
  that the temporary buffers are allocated in.

  Main declarations:
    * `OpenFile.readAt_eq`
    * `OpenFile.writeAt_eq`
    * `OpenFile.writeAt_spec`
-/

------------------------------------
-- Buffers
------------------------------------

namespace Nachos

open Bytes

namespace Buffer

variable {start k : Nat}

theorem store_of_mem
    (buf : Buffer)
    {bytes : List Byte}
    (hLow : start ≤ k)
    (hHigh : k < start + bytes.length) :
    buf.store start bytes k =
      bytes.getD (k - start) 0 := by
  simp [store, hLow, hHigh]

theorem store_of_not_mem
    (buf : Buffer)
    {bytes : List Byte}
    (hOut : ¬ (start ≤ k ∧ k < start + bytes.length)) :
    buf.store start bytes k = buf k := by
  simp [store, hOut]

theorem storeSector_of_mem
    (buf : Buffer)
    {start : Nat}
    (data : Sector)
    (i : Fin SectorSize) :
    buf.storeSector start data (start + i) = data i := by
  have hi := i.2
  rw [storeSector, store_of_mem _ (by omega)
    (by rw [List.length_ofFn]; omega),
    List.getD_eq_getElem?_getD, List.getElem?_ofFn,
    Nat.add_sub_cancel_left, dif_pos i.2]
  rfl

theorem storeSector_of_not_mem
    (buf : Buffer)
    (data : Sector)
    (hOut : k < start ∨ start + SectorSize ≤ k) :
    buf.storeSector start data k = buf k := by
  apply store_of_not_mem
  simp only [List.length_ofFn]
  omega

end Buffer

end Nachos

------------------------------------
-- Sector Loops
------------------------------------

namespace Nachos

open Bytes CInt

namespace OpenFile

variable {file : OpenFile}

/- The sector of a round of the loops. -/
theorem byteToSector_round
    (hWf : file.hdr.WellFormed)
    {first n : Nat}
    (hTable : first + n < file.hdr.numSectors.toNat) :
    file.hdr.byteToSector (((first : Int) + n) * SectorSize) =
      some (file.hdr.sectorAt (first + n) : Int) := by
  have hCast : ((first : Int) + n) * SectorSize =
      (((first + n) * SectorSize : Nat) : Int) := by
    push_cast
    rfl
  rw [hCast, hWf.byteToSector_eq hTable]

/- The read loop fills the buffer with bytes of the file. -/
theorem readSectors_spec
    (hWf : file.hdr.WellFormed)
    (disk : Disk)
    (buf : Buffer)
    (first n : Nat)
    (hLast : first + n ≤ file.hdr.numSectors.toNat) :
    ∃ buf',
      file.readSectors disk first buf n = some buf' ∧
      (∀ k < n * SectorSize,
        buf' k =
          disk.fileByte file.hdr (first * SectorSize + k)) ∧
      (∀ k ≥ n * SectorSize, buf' k = buf k) := by
  induction n with
  | zero =>
      refine ⟨buf, rfl, ?_, ?_⟩
      · intro k hk
        omega
      · intro k hk
        rfl
  | succ n ih =>
      rcases ih (by omega) with ⟨buf', hRun, hIn, hOut⟩
      have hTable : first + n < file.hdr.numSectors.toNat := by
        omega
      have hSector := hWf.sector_lt _ hTable
      refine ⟨buf'.storeSector (n * SectorSize)
        (disk ⟨_, hSector⟩), ?_, ?_, ?_⟩
      · simp only [readSectors, hRun,
          byteToSector_round hWf hTable,
          SynchDisk.readSector_natCast disk hSector,
          Option.bind_eq_bind, Option.bind_some]
      · intro k hk
        by_cases hOld : k < n * SectorSize
        · rw [Buffer.storeSector_of_not_mem _ _
            (Or.inl hOld), hIn k hOld]
        · have hOffset : k - n * SectorSize < SectorSize := by
            simp only [SectorSize] at hk hOld ⊢
            omega
          have hSplit : k = n * SectorSize +
              (⟨k - n * SectorSize, hOffset⟩ :
                Fin SectorSize) := by
            simp only
            omega
          rw [hSplit, Buffer.storeSector_of_mem,
            Disk.fileByte]
          have hDiv :
              (first * SectorSize + (n * SectorSize +
                (k - n * SectorSize))) / SectorSize =
                  first + n := by
            simp only [SectorSize] at hOffset ⊢
            omega
          have hMod :
              (first * SectorSize + (n * SectorSize +
                (k - n * SectorSize))) % SectorSize =
                  k - n * SectorSize := by
            simp only [SectorSize] at hOffset ⊢
            omega
          simp only [hDiv, hMod, Disk.byteAt, hSector,
            hOffset, and_self, dif_pos]
      · intro k hk
        simp only [SectorSize] at hk
        rw [Buffer.storeSector_of_not_mem _ _
          (Or.inr (by simp only [SectorSize]; omega)),
          hOut k (by simp only [SectorSize]; omega)]

/-
  The write loop replaces the sectors of its range by the
  buffer and leaves every other sector alone.
-/
theorem writeSectors_spec
    (hWf : file.hdr.WellFormed)
    (hNodup : file.hdr.sectors.Nodup)
    (disk : Disk)
    (buf : Buffer)
    (first n : Nat)
    (hLast : first + n ≤ file.hdr.numSectors.toNat) :
    ∃ disk',
      file.writeSectors disk first buf n = some disk' ∧
      (∀ i < n, ∀ offset < SectorSize,
        disk'.byteAt (file.hdr.sectorAt (first + i)) offset =
          buf (i * SectorSize + offset)) ∧
      (∀ s,
        (∀ i < n, file.hdr.sectorAt (first + i) ≠ s) →
          ∀ offset,
            disk'.byteAt s offset =
              disk.byteAt s offset) := by
  induction n with
  | zero =>
      refine ⟨disk, rfl, ?_, ?_⟩
      · intro i hi
        omega
      · intro s _ offset
        rfl
  | succ n ih =>
      rcases ih (by omega) with ⟨disk', hRun, hIn, hOut⟩
      have hTable : first + n < file.hdr.numSectors.toNat := by
        omega
      have hSector := hWf.sector_lt _ hTable
      refine ⟨Function.update disk' ⟨_, hSector⟩
        (buf.sectorAt (n * SectorSize)), ?_, ?_, ?_⟩
      · simp only [writeSectors, hRun,
          byteToSector_round hWf hTable,
          SynchDisk.writeSector_natCast disk' hSector,
          Option.bind_eq_bind, Option.bind_some]
      · intro i hi offset hOffset
        by_cases hLastRound : i = n
        · subst hLastRound
          simp [Disk.byteAt, hSector, hOffset,
            Buffer.sectorAt]
        · have hNe : file.hdr.sectorAt (first + i) ≠
              file.hdr.sectorAt (first + n) :=
            FileHeader.sectorAt_ne hNodup (by omega)
              hTable (by omega)
          rw [← hIn i (by omega) offset hOffset]
          exact Disk.byteAt_update_of_ne _ _ hNe _
      · intro s hs offset
        have hNe := hs n (by omega)
        rw [← hOut s (fun i hi => hs i (by omega)) offset]
        exact Disk.byteAt_update_of_ne _ _ (Ne.symm hNe) _

end OpenFile

end Nachos

------------------------------------
-- Extent of a Request
------------------------------------

namespace Nachos

open Bytes CInt

namespace OpenFile

theorem clip_eq
    {length p : Nat}
    {n : Int}
    (hn : 0 < n)
    (hp : p < length)
    (hLength : length ≤ MaxFileSize)
    (hEnd : p + n < 2 ^ 31) :
    clip length n p = FixedArray.count length n p := by
  have hMax : length < 2 ^ 31 := by
    simp only [MaxFileSize, NumDirect, SectorSize] at hLength
    omega
  rw [FixedArray.count_of_inside hn hp, clip,
    wrap_of_mem (by omega) hEnd]
  split
  · rw [wrap_of_mem (by omega) (by omega)]
    omega
  · omega

/- The last sector of a request that lies in a file. -/
theorem lastSector_eq
    {length p k : Nat}
    (hk : 0 < k)
    (hLe : p + k ≤ length)
    (hLength : length ≤ MaxFileSize) :
    divRoundDown (wrap (wrap ((p : Int) + k) - 1))
        SectorSize =
      ((p + k - 1) / SectorSize : Nat) := by
  have hMax : length < 2 ^ 31 := by
    simp only [MaxFileSize, NumDirect, SectorSize] at hLength
    omega
  have hCast : (p : Int) + k - 1 = ((p + k - 1 : Nat) : Int) := by
    omega
  rw [wrap_of_mem (x := (p : Int) + k)
    (by omega) (by omega), hCast,
    wrap_of_mem (by omega) (by omega),
    divRoundDown_natCast]

/- The bytes in the buffer are the ones that were asked for. -/
theorem copyOut_eq
    {buf : Buffer}
    {bytes : Nat → Byte}
    (first size : Nat)
    {p k : Nat}
    (hFirst : first ≤ p)
    (hSize : p + k ≤ first + size)
    (hBuf : ∀ j < size, buf j = bytes (first + j)) :
    buf.copyOut size ((p : Int) - first) k =
      some ((List.range k).map fun j => bytes (p + j)) := by
  have hStart : (p : Int) - first = ((p - first : Nat) : Int) := by
    omega
  unfold Buffer.copyOut
  rw [if_pos (by omega), hStart, Int.toNat_natCast,
    Int.toNat_natCast]
  congr 1
  apply List.map_congr_left
  intro j hj
  rw [List.mem_range] at hj
  rw [hBuf _ (by omega)]
  congr 1
  omega

end OpenFile

namespace Disk

/- A read of the contents lists consecutive bytes. -/
theorem read_contents
    (disk : Disk)
    (hdr : FileHeader)
    (n : Int)
    (p : Nat) :
    FixedArray.read (disk.contents hdr) n p =
      (List.range (FixedArray.count hdr.length n p)).map
        fun j => disk.fileByte hdr (p + j) := by
  rcases Nat.eq_zero_or_pos
      (FixedArray.count hdr.length n p) with hZero | hPos
  · simp [FixedArray.read, hZero]
  · have hLe := FixedArray.add_count_le hPos
    apply List.ext_getElem?
    intro j
    unfold FixedArray.read
    rw [length_contents, List.getElem?_take,
      List.getElem?_drop, List.getElem?_map]
    by_cases hj : j < FixedArray.count hdr.length n p
    · rw [if_pos hj, contents, List.getElem?_map,
        List.getElem?_range (by omega),
        List.getElem?_range hj]
      rfl
    · rw [if_neg hj, List.getElem?_eq_none]
      · rfl
      · simpa using hj

theorem getElem?_contents
    (disk : Disk)
    {hdr : FileHeader}
    {q : Nat}
    (hq : q < hdr.length) :
    (disk.contents hdr)[q]? =
      some (disk.fileByte hdr q) := by
  rw [contents, List.getElem?_map, List.getElem?_range hq]
  rfl

end Disk

end Nachos

------------------------------------
-- Reads
------------------------------------

namespace Nachos

open Bytes CInt

namespace OpenFile

variable {file : OpenFile}

/- A read returns the bytes of the file in its range. -/
theorem readAt_eq
    (hWf : file.hdr.WellFormed)
    (memory : Memory)
    (disk : Disk)
    {n : Int}
    {p : Nat}
    (hEnd : p + n < 2 ^ 31) :
    file.readAt memory disk n p =
      some ((FixedArray.count file.hdr.length n p : Int),
        FixedArray.read (disk.contents file.hdr) n p) := by
  have hLength := hWf.length_le
  unfold readAt
  rw [hWf.fileLength_eq, Disk.read_contents]
  by_cases hEmpty : n ≤ 0 ∨ (p : Int) ≥ file.hdr.length
  · have hZero : FixedArray.count file.hdr.length n p = 0 := by
      unfold FixedArray.count
      rw [if_pos (by omega)]
    rw [if_pos hEmpty, hZero]
    rfl
  · have hp : p < file.hdr.length := by
      omega
    have hn : 0 < n := by
      omega
    have hCount := FixedArray.count_of_inside hn hp
    have hClip := clip_eq hn hp hLength hEnd
    have hk : 0 < FixedArray.count file.hdr.length n p := by
      omega
    have hLe := FixedArray.add_count_le hk
    generalize hK :
      FixedArray.count file.hdr.length n p = k at *
    have hFirst : divRoundDown (p : Int) SectorSize =
        (p / SectorSize : Nat) :=
      divRoundDown_natCast p SectorSize
    have hLast := lastSector_eq hk hLe hLength
    have hLastTable := hWf.div_lt (p := p + k - 1) (by omega)
    have hOrder : p / SectorSize ≤ (p + k - 1) / SectorSize :=
      Nat.div_le_div_right (by omega)
    have hNum : 1 + (((p + k - 1) / SectorSize : Nat) : Int) -
        (p / SectorSize : Nat) =
          ((1 + (p + k - 1) / SectorSize -
            p / SectorSize : Nat) : Int) := by
      omega
    rcases readSectors_spec hWf disk (memory 0)
        (p / SectorSize)
        (1 + (p + k - 1) / SectorSize - p / SectorSize)
        (by omega) with
      ⟨buf, hRun, hBuf, _⟩
    have hCopy := copyOut_eq
      (p / SectorSize * SectorSize)
      ((1 + (p + k - 1) / SectorSize -
        p / SectorSize) * SectorSize)
      (p := p) (k := k)
      (by simp only [SectorSize]; omega)
      (by simp only [SectorSize] at hOrder ⊢; omega)
      hBuf
    rw [if_neg hEmpty]
    simp only [hClip, hFirst, hLast, hNum, Int.toNat_natCast,
      hRun, Option.bind_eq_bind, Option.bind_some]
    rw [Int.natCast_mul, Int.natCast_mul] at hCopy
    rw [hCopy]
    rfl

------------------------------------
-- Writes
------------------------------------

/-
  `new` is `old` with sector `i` of the file from `start` on,
  up to the end of the file.
-/
def SectorRead
    (file : OpenFile)
    (disk : Disk)
    (i start : Nat)
    (old new : Buffer) : Prop :=
  ∀ j,
    new j =
      if start ≤ j ∧ j < start + SectorSize ∧
          i * SectorSize + (j - start) < file.hdr.length then
        disk.fileByte file.hdr (i * SectorSize + (j - start))
      else
        old j

section SectorRead

variable {disk : Disk}
variable {first i start : Nat}
variable {old new : Buffer}

/- The buffer starts with sector `first` of the file. -/
theorem SectorRead.agree
    (hRead : file.SectorRead disk i start old new)
    (hi : first ≤ i)
    (hStart : start = (i - first) * SectorSize)
    {q : Nat}
    (hLow : i * SectorSize ≤ q)
    (hHigh : q < (i + 1) * SectorSize)
    (hIn : q < file.hdr.length) :
    new (q - first * SectorSize) =
      disk.fileByte file.hdr q := by
  simp only [SectorSize] at *
  rw [hRead, if_pos (by simp only [SectorSize]; omega)]
  congr 1
  simp only [SectorSize]
  omega

theorem SectorRead.keep
    (hRead : file.SectorRead disk i start old new)
    (hi : first ≤ i)
    (hStart : start = (i - first) * SectorSize)
    {j : Nat}
    (hOut :
      first * SectorSize + j < i * SectorSize ∨
        file.hdr.length ≤ first * SectorSize + j) :
    new j = old j := by
  simp only [SectorSize] at *
  rw [hRead, if_neg (by simp only [SectorSize]; omega)]

end SectorRead

variable {source : List Byte}

/- Reading a sector into the buffer. -/
theorem readPartial_spec
    (hWf : file.hdr.WellFormed)
    (memory : Memory)
    (disk : Disk)
    (buf : Buffer)
    (start : Nat)
    {i : Nat}
    (hi : i * SectorSize < file.hdr.length) :
    ∃ buf',
      file.readPartial memory disk buf start
        ((i : Int) * SectorSize) = some buf' ∧
      file.SectorRead disk i start buf buf' := by
  have hLength := hWf.length_le
  have hEnd : ((i * SectorSize : Nat) : Int) + SectorSize <
      2 ^ 31 := by
    simp only [MaxFileSize, NumDirect, SectorSize]
      at hLength hi ⊢
    omega
  have hRead := readAt_eq hWf memory disk hEnd
  have hCast : (i : Int) * SectorSize =
      ((i * SectorSize : Nat) : Int) := by
    rw [Int.natCast_mul]
  refine ⟨_, by
    simp only [readPartial, hCast, hRead,
      Option.bind_eq_bind, Option.bind_some]
    rfl, ?_⟩
  have hCount := FixedArray.count_of_inside
    (n := SectorSize) (by simp only [SectorSize]; omega) hi
  intro j
  rw [Disk.read_contents]
  by_cases hj : start ≤ j ∧ j < start + SectorSize ∧
      i * SectorSize + (j - start) < file.hdr.length
  · rw [if_pos hj, Buffer.store_of_mem _ hj.1,
      List.getD_eq_getElem?_getD, List.getElem?_map,
      List.getElem?_range (by omega)]
    · rfl
    · rw [List.length_map, List.length_range]
      omega
  · rw [if_neg hj, Buffer.store_of_not_mem]
    rw [List.length_map, List.length_range]
    omega

/-
  After the edges are read, the buffer agrees with the file
  on the first sector unless that one is aligned, and on the
  last sector unless that one is.  Behind the end of the file
  it is as it was.
-/
theorem readEdges_spec
    (hWf : file.hdr.WellFormed)
    (memory : Memory)
    (disk : Disk)
    (buf : Buffer)
    {first last : Nat}
    (hOrder : first ≤ last)
    (hLast : last * SectorSize < file.hdr.length)
    (firstAligned lastAligned : Bool) :
    ∃ buf',
      file.readEdges memory disk buf first last
        firstAligned lastAligned = some buf' ∧
      (∀ q,
        first * SectorSize ≤ q →
        q < (last + 1) * SectorSize →
        q < file.hdr.length →
        (firstAligned = false ∧
            q < (first + 1) * SectorSize ∨
          lastAligned = false ∧ last * SectorSize ≤ q) →
          buf' (q - first * SectorSize) =
            disk.fileByte file.hdr q) ∧
      ∀ j, file.hdr.length ≤ first * SectorSize + j →
        buf' j = buf j := by
  have hFirst : first * SectorSize < file.hdr.length := by
    simp only [SectorSize] at *
    omega
  have hStart :
      (((last : Int) - first) * SectorSize).toNat =
        (last - first) * SectorSize := by
    simp only [SectorSize]
    omega
  cases firstAligned with
  | true =>
      cases lastAligned with
      | true =>
          refine ⟨buf, by simp [readEdges], ?_,
            fun _ _ => rfl⟩
          intro q _ _ _ hEdge
          simp at hEdge
      | false =>
          rcases readPartial_spec hWf (memory.after 1) disk
              buf ((last - first) * SectorSize) hLast with
            ⟨buf', hRun, hBuf⟩
          refine ⟨buf', ?_, ?_, ?_⟩
          · simp only [readEdges, hStart]
            simpa using hRun
          · intro q _ hHigh hIn hEdge
            exact hBuf.agree hOrder rfl (by simpa using hEdge)
              hHigh hIn
          · intro j hBehind
            exact hBuf.keep hOrder rfl (Or.inr hBehind)
  | false =>
      rcases readPartial_spec hWf memory disk buf 0 hFirst
        with ⟨buf₁, hRun₁, hBuf₁⟩
      have hZero : 0 = (first - first) * SectorSize := by
        simp
      by_cases hSkip : lastAligned = true ∨ first = last
      · refine ⟨buf₁, ?_, ?_, ?_⟩
        · simp only [readEdges, Bool.not_false, if_true,
            hRun₁, Option.bind_eq_bind, Option.bind_some]
          rcases hSkip with hAligned | hSame
          · simp [hAligned]
          · simp [hSame]
        · intro q hLow hHigh hIn hEdge
          apply hBuf₁.agree (Nat.le_refl first) hZero hLow _ hIn
          rcases hEdge with ⟨_, hq⟩ | ⟨hNot, _⟩
          · exact hq
          · rcases hSkip with hAligned | hSame
            · simp [hAligned] at hNot
            · rw [hSame]
              exact hHigh
        · intro j hBehind
          exact hBuf₁.keep (Nat.le_refl first) hZero
            (Or.inr hBehind)
      · rw [not_or] at hSkip
        rcases readPartial_spec hWf (memory.after 1) disk
            buf₁ ((last - first) * SectorSize) hLast with
          ⟨buf₂, hRun₂, hBuf₂⟩
        refine ⟨buf₂, ?_, ?_, ?_⟩
        · simp only [readEdges, Bool.not_false, if_true,
            hRun₁, Option.bind_eq_bind, Option.bind_some,
            hStart]
          rw [if_pos]
          · exact hRun₂
          · simpa [Int.natCast_inj] using hSkip
        · intro q hLow hHigh hIn hEdge
          by_cases hq : last * SectorSize ≤ q
          · exact hBuf₂.agree hOrder rfl hq hHigh hIn
          · rw [hBuf₂.keep hOrder rfl (by omega)]
            exact hBuf₁.agree (Nat.le_refl first) hZero hLow
              (by omega) hIn
        · intro j hBehind
          rw [hBuf₂.keep hOrder rfl (Or.inr hBehind)]
          exact hBuf₁.keep (Nat.le_refl first) hZero
            (Or.inr hBehind)

/- Copying in the new bytes replaces exactly their range. -/
theorem copyIn_spec
    (buf : Buffer)
    (first size : Nat)
    {p k : Nat}
    (hFirst : first ≤ p)
    (hSize : p + k ≤ first + size)
    (hSource : k ≤ source.length) :
    ∃ buf',
      buf.copyIn size ((p : Int) - first) source k =
        some buf' ∧
      ∀ q, first ≤ q →
        buf' (q - first) =
          if p ≤ q ∧ q < p + k then
            source.getD (q - p) 0
          else
            buf (q - first) := by
  have hStart : (p : Int) - first = ((p - first : Nat) : Int) := by
    omega
  refine ⟨_, by
    unfold Buffer.copyIn
    rw [if_pos (by omega), hStart, Int.toNat_natCast,
      Int.toNat_natCast], ?_⟩
  intro q hq
  have hTake : (source.take k).length = k := by
    rw [List.length_take]
    omega
  by_cases hIn : p ≤ q ∧ q < p + k
  · rw [if_pos hIn, Buffer.store_of_mem _ (by omega)
      (by rw [hTake]; omega),
      List.getD_eq_getElem?_getD, List.getD_eq_getElem?_getD,
      List.getElem?_take_of_lt (by omega)]
    congr 2
    omega
  · rw [if_neg hIn, Buffer.store_of_not_mem]
    rw [hTake]
    omega

/-
  A write to the sectors of a request turns the contents of
  the file into what the buffer holds there.
-/
theorem fileByte_writeSectors
    (hNodup : file.hdr.sectors.Nodup)
    {disk disk' : Disk}
    {buf : Buffer}
    (first : Nat)
    {n : Nat}
    (hLast : first + n ≤ file.hdr.numSectors.toNat)
    (hIn : ∀ i < n, ∀ offset < SectorSize,
      disk'.byteAt (file.hdr.sectorAt (first + i)) offset =
        buf (i * SectorSize + offset))
    (hOut : ∀ s,
      (∀ i < n, file.hdr.sectorAt (first + i) ≠ s) →
        ∀ offset,
          disk'.byteAt s offset = disk.byteAt s offset)
    {q : Nat}
    (hq : q / SectorSize < file.hdr.numSectors.toNat) :
    disk'.fileByte file.hdr q =
      if first * SectorSize ≤ q ∧
          q < (first + n) * SectorSize then
        buf (q - first * SectorSize)
      else
        disk.fileByte file.hdr q := by
  unfold Disk.fileByte
  by_cases hRange : first * SectorSize ≤ q ∧
      q < (first + n) * SectorSize
  · have hDiv : q / SectorSize =
        first + (q / SectorSize - first) := by
      simp only [SectorSize] at *
      omega
    have hMod : q % SectorSize < SectorSize :=
      Nat.mod_lt _ (by decide)
    rw [if_pos hRange, hDiv,
      hIn _ (by simp only [SectorSize] at *; omega) _ hMod]
    congr 1
    simp only [SectorSize] at *
    omega
  · rw [if_neg hRange]
    apply hOut
    intro i hi
    apply FileHeader.sectorAt_ne hNodup (by omega) hq
    simp only [SectorSize] at *
    omega

/-
  The buffer of a write: the new bytes of the file, and
  behind its end whatever was in memory.
-/
structure WriteBuffer
    (file : OpenFile)
    (memory : Memory)
    (disk : Disk)
    (source : List Byte)
    (p k first last : Nat)
    (buf : Buffer) : Prop where
  inside :
    ∀ q,
      first * SectorSize ≤ q →
      q < (last + 1) * SectorSize →
      q < file.hdr.length →
      buf (q - first * SectorSize) =
        if p ≤ q ∧ q < p + k then
          source.getD (q - p) 0
        else
          disk.fileByte file.hdr q
  behind :
    ∀ q,
      first * SectorSize ≤ q →
      file.hdr.length ≤ q →
      buf (q - first * SectorSize) =
        memory 0 (q - first * SectorSize)

/- The edges are read and the new bytes are copied in. -/
theorem exists_writeBuffer
    (hWf : file.hdr.WellFormed)
    (memory : Memory)
    (disk : Disk)
    {p k first last : Nat}
    (hTake : k ≤ source.length)
    (hLe : p + k ≤ file.hdr.length)
    (hk : 0 < k)
    (hFirst : first = p / SectorSize)
    (hLast : last = (p + k - 1) / SectorSize) :
    ∃ buf₁ buf : Buffer,
      file.readEdges (memory.after 1) disk (memory 0) first
        last ((p : Int) == first * SectorSize)
        ((p : Int) + k == (last + 1) * SectorSize) =
          some buf₁ ∧
      buf₁.copyIn ((1 + last - first : Nat) * SectorSize : Nat)
        ((p : Int) - (first * SectorSize : Nat)) source k =
          some buf ∧
      file.WriteBuffer memory disk source p k first last
        buf := by
  have hBounds : first ≤ last ∧
      first * SectorSize ≤ p ∧ p < (first + 1) * SectorSize ∧
      last * SectorSize ≤ p + k - 1 ∧
      p + k ≤ (last + 1) * SectorSize := by
    subst hFirst hLast
    simp only [SectorSize]
    omega
  rcases hBounds with
    ⟨hOrder, hFirstLe, hBeginIn, hLastLe, hEndIn⟩
  rcases readEdges_spec hWf (memory.after 1) disk (memory 0)
      hOrder (Nat.lt_of_le_of_lt hLastLe (by omega))
      ((p : Int) == first * SectorSize)
      ((p : Int) + k == (last + 1) * SectorSize) with
    ⟨buf₁, hEdges, hAround, hBehind⟩
  rcases copyIn_spec buf₁ (first * SectorSize)
      ((1 + last - first) * SectorSize) hFirstLe
      (by simp only [SectorSize] at *; omega) hTake with
    ⟨buf, hCopy, hBuf⟩
  refine ⟨buf₁, buf, hEdges, hCopy, ?_, ?_⟩
  · intro q hLow hHigh hIn
    rw [hBuf q hLow]
    split
    · rfl
    · rename_i hMid
      apply hAround q hLow hHigh hIn
      -- the byte is before or behind the request
      simp only [beq_eq_false_iff_ne, SectorSize] at *
      rcases Nat.lt_or_ge q p with hBefore | hBehind
      · apply Or.inl
        omega
      · apply Or.inr
        omega
  · intro q hLow hOut
    rw [hBuf q hLow, if_neg (by omega)]
    exact hBehind _ (by omega)

/- A write that is not empty writes back its buffer. -/
theorem writeAt_eq
    (hWf : file.hdr.WellFormed)
    (memory : Memory)
    (disk : Disk)
    {n : Int}
    {p : Nat}
    (hSource : n ≤ source.length)
    (hEnd : p + n < 2 ^ 31)
    (hn : 0 < n)
    (hp : p < file.hdr.length) :
    ∃ (k last : Nat) (buf : Buffer),
      k = FixedArray.count file.hdr.length n p ∧
      last = (p + k - 1) / SectorSize ∧
      file.writeAt memory disk source n p =
        (file.writeSectors disk (p / SectorSize : Nat) buf
          (1 + last - p / SectorSize)).map
            (fun disk' => ((k : Int), disk')) ∧
      file.WriteBuffer memory disk source p k
        (p / SectorSize) last buf := by
  have hLength := hWf.length_le
  have hEmpty : ¬ (n ≤ 0 ∨ (p : Int) ≥ file.hdr.length) := by
    omega
  have hCount := FixedArray.count_of_inside hn hp
  have hClip := clip_eq hn hp hLength hEnd
  have hk : 0 < FixedArray.count file.hdr.length n p := by
    omega
  have hLe := FixedArray.add_count_le hk
  have hTake : FixedArray.count file.hdr.length n p ≤
      source.length := by
    omega
  refine ⟨FixedArray.count file.hdr.length n p,
    (p + FixedArray.count file.hdr.length n p - 1) /
      SectorSize, ?_⟩
  generalize FixedArray.count file.hdr.length n p = k at *
  have hLast := lastSector_eq hk hLe hLength
  have hFirst : divRoundDown (p : Int) SectorSize =
      (p / SectorSize : Nat) :=
    divRoundDown_natCast p SectorSize
  have hOrder : p / SectorSize ≤ (p + k - 1) / SectorSize :=
    Nat.div_le_div_right (by omega)
  have hWrap : wrap ((p : Int) + k) = p + k := by
    simp only [MaxFileSize, NumDirect, SectorSize] at hLength
    exact wrap_of_mem (by omega) (by omega)
  rcases exists_writeBuffer hWf memory disk hTake hLe hk rfl
      rfl with
    ⟨buf₁, buf, hEdges, hCopy, hBuffer⟩
  refine ⟨buf, rfl, rfl, ?_, hBuffer⟩
  unfold writeAt
  rw [hWf.fileLength_eq, if_neg hEmpty]
  rw [← hWrap] at hEdges
  rw [Int.natCast_mul, Int.natCast_mul] at hCopy
  generalize p / SectorSize = first at *
  generalize (p + k - 1) / SectorSize = last at *
  have hNum : 1 + (last : Int) - first =
      ((1 + last - first : Nat) : Int) := by
    omega
  simp only [hClip, hFirst, hLast, hNum, hEdges, hCopy,
    Int.toNat_natCast, Option.bind_eq_bind, Option.bind_some]
  rw [Option.map_eq_bind]
  rfl

/-
  A write replaces the bytes of the file in its range and
  touches no sector of another file.
-/
theorem writeAt_spec
    (hWf : file.hdr.WellFormed)
    (hNodup : file.hdr.sectors.Nodup)
    (memory : Memory)
    (disk : Disk)
    {n : Int}
    {p : Nat}
    (hSource : n ≤ source.length)
    (hEnd : p + n < 2 ^ 31) :
    ∃ disk',
      file.writeAt memory disk source n p =
        some ((FixedArray.count file.hdr.length n p : Int),
          disk') ∧
      disk'.contents file.hdr =
        FixedArray.write (disk.contents file.hdr)
          source n p ∧
      ∀ s ∉ file.hdr.sectors,
        ∀ offset,
          disk'.byteAt s offset = disk.byteAt s offset := by
  by_cases hEmpty : n ≤ 0 ∨ (p : Int) ≥ file.hdr.length
  · have hZero : FixedArray.count file.hdr.length n p = 0 := by
      unfold FixedArray.count
      rw [if_pos (by omega)]
    refine ⟨disk, ?_, ?_, ?_⟩
    · unfold writeAt
      rw [hWf.fileLength_eq, if_pos hEmpty, hZero]
      rfl
    · rw [FixedArray.write_of_count_eq_zero]
      rwa [Disk.length_contents]
    · intro s _ offset
      rfl
  · have hp : p < file.hdr.length := by
      omega
    have hn : 0 < n := by
      omega
    rcases writeAt_eq hWf memory disk hSource hEnd hn hp with
      ⟨k, last, buf, hK, hLastEq, hWriteAt, hBuf, _⟩
    have hCount := FixedArray.count_of_inside hn hp
    have hk : 0 < FixedArray.count file.hdr.length n p := by
      omega
    have hLe := FixedArray.add_count_le hk
    have hTake : FixedArray.count file.hdr.length n p ≤
        source.length := by
      omega
    have hWrite := FixedArray.getElem?_write source
      (a := disk.contents file.hdr) (p := p) (n := n)
    rw [Disk.length_contents] at hWrite
    rw [← hK] at hk hLe hTake hWrite ⊢
    have hLastTable := hWf.div_lt (p := p + k - 1) (by omega)
    have hOrder : p / SectorSize ≤ (p + k - 1) / SectorSize :=
      Nat.div_le_div_right (by omega)
    rw [← hLastEq] at hLastTable hOrder
    rcases writeSectors_spec hWf hNodup disk buf
        (p / SectorSize) (1 + last - p / SectorSize)
        (by omega) with
      ⟨disk', hRun, hIn, hOut⟩
    refine ⟨disk', by rw [hWriteAt, hRun]; rfl, ?_, ?_⟩
    · apply List.ext_getElem?
      intro q
      rw [hWrite hTake hk q]
      by_cases hq : q < file.hdr.length
      · rw [Disk.getElem?_contents disk' hq,
          fileByte_writeSectors hNodup (p / SectorSize)
            (by omega) hIn hOut (hWf.div_lt hq)]
        split
        · rename_i hRange
          rw [hBuf q hRange.1 (by
            simp only [SectorSize] at *
            omega) hq]
          split
          · rw [List.getD_eq_getElem?_getD,
              List.getElem?_eq_getElem (by omega)]
            rfl
          · rw [Disk.getElem?_contents disk hq]
        · rename_i hRange
          rw [if_neg (by
            simp only [SectorSize] at *
            omega), Disk.getElem?_contents disk hq]
      · rw [List.getElem?_eq_none (by
            rw [Disk.length_contents]
            omega), if_neg (by omega),
          List.getElem?_eq_none (by
            rw [Disk.length_contents]
            omega)]
    · intro s hs offset
      apply hOut
      rintro i hi rfl
      exact hs (file.hdr.sectorAt_mem_sectors (by omega))

end OpenFile

end Nachos
