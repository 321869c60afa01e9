import Nachos.FileSys.Transfer

/-
  What a request on an open file touches.

  The sectors that `ReadAt` and `WriteAt` look up and the
  ranges that they copy depend on the length of the file and
  on the request alone.  They stay inside of the file and of
  the buffers, unless the position is negative or the end of
  the request overflows.

  Main declarations:
    * `Access`
    * `FileHeader.Sized`
    * `OpenFile.writeAt_isSome_iff`
    * `FileHeader.bounded_iff`
    * `FileHeader.requests_leave_file`
-/

------------------------------------
-- Accesses
------------------------------------

namespace Nachos

open Bytes CInt

/-
  A call of `ByteToSector` for the sector with some index in
  the file, or a call of `bcopy` between a temporary buffer
  of `size` bytes and the bytes of the caller.
-/
inductive Access where
  | lookup (index : Int)
  | copy (size start callerBytes numBytes : Int)
  deriving DecidableEq

namespace OpenFile

/- The lookups of `n` rounds of a sector loop. -/
def lookups
    (firstSector : Int)
    (n : Nat) :
    List Access :=
  (List.range n).map fun k : Nat =>
    .lookup (firstSector + k)

/- The number of bytes that a request returns. -/
def transferred
    (fileLength numBytes position : Int) :
    Int :=
  if numBytes ≤ 0 ∨ position ≥ fileLength then
    0
  else
    clip fileLength numBytes position

def readAccesses
    (fileLength numBytes position : Int) :
    List Access :=
  if numBytes ≤ 0 ∨ position ≥ fileLength then
    []
  else
    let count := clip fileLength numBytes position
    let firstSector := divRoundDown position SectorSize
    let lastSector :=
      divRoundDown (wrap (wrap (position + count) - 1))
        SectorSize
    let numSectors := 1 + lastSector - firstSector
    lookups firstSector numSectors.toNat ++
      [.copy (numSectors * SectorSize)
        (position - firstSector * SectorSize) numBytes count]

/- The sectors that `WriteAt` reads in are reads as well. -/
def edgeAccesses
    (fileLength firstSector lastSector : Int)
    (firstAligned lastAligned : Bool) :
    List Access :=
  (if !firstAligned then
    readAccesses fileLength SectorSize
      (firstSector * SectorSize)
  else
    []) ++
  if !lastAligned &&
      (firstSector != lastSector || firstAligned) then
    readAccesses fileLength SectorSize
      (lastSector * SectorSize)
  else
    []

def writeAccesses
    (fileLength numBytes position : Int) :
    List Access :=
  if numBytes ≤ 0 ∨ position ≥ fileLength then
    []
  else
    let count := clip fileLength numBytes position
    let firstSector := divRoundDown position SectorSize
    let lastSector :=
      divRoundDown (wrap (wrap (position + count) - 1))
        SectorSize
    let numSectors := 1 + lastSector - firstSector
    let firstAligned :=
      position == firstSector * SectorSize
    let lastAligned :=
      wrap (position + count) ==
        (lastSector + 1) * SectorSize
    edgeAccesses fileLength firstSector lastSector
        firstAligned lastAligned ++
      .copy (numSectors * SectorSize)
        (position - firstSector * SectorSize) numBytes count ::
      lookups firstSector numSectors.toNat

end OpenFile

end Nachos

------------------------------------
-- Requests Make Their Accesses
------------------------------------

namespace Nachos

open Bytes CInt

/-
  The lookup is inside of the table of the header and finds a
  sector of the disk, or the copy is inside of both buffers.
-/
def Access.Succeeds
    (hdr : FileHeader) :
    Access → Prop
| .lookup index =>
    ∃ sector,
      hdr.byteToSector (index * SectorSize) = some sector ∧
      0 ≤ sector ∧ sector < NumSectors
| .copy size start callerBytes numBytes =>
    0 ≤ start ∧ 0 ≤ numBytes ∧ start + numBytes ≤ size ∧
      numBytes ≤ callerBytes

/- A continuation that succeeds or fails for every value. -/
theorem isSome_bind_iff
    {α β : Type}
    {x : Option α}
    {f : α → Option β}
    {P : Prop}
    (hf : ∀ a, (f a).isSome = true ↔ P) :
    (x.bind f).isSome = true ↔ x.isSome = true ∧ P := by
  cases x with
  | none => simp
  | some a => simp [hf a]

namespace OpenFile

variable {file : OpenFile}

theorem forall_lookups_succ
    {P : Access → Prop}
    (firstSector : Int)
    (n : Nat) :
    (∀ a ∈ lookups firstSector (n + 1), P a) ↔
      (∀ a ∈ lookups firstSector n, P a) ∧
        P (.lookup (firstSector + n)) := by
  unfold lookups
  rw [List.range_succ, List.map_append, List.forall_mem_append,
    List.map_singleton, List.forall_mem_singleton]

theorem lookup_isSome_iff
    {β : Type}
    {firstSector : Int}
    {n : Nat}
    {f : Int → Option β}
    (hf : ∀ sector, (f sector).isSome = true ↔
      0 ≤ sector ∧ sector < NumSectors) :
    ((file.hdr.byteToSector
        ((firstSector + n) * SectorSize)).bind f).isSome =
          true ↔
      (Access.lookup (firstSector + n)).Succeeds file.hdr := by
  simp only [Access.Succeeds]
  cases file.hdr.byteToSector
      ((firstSector + n) * SectorSize) with
  | none => simp
  | some sector => simp [hf sector]

theorem readSectors_isSome_iff
    (disk : Disk)
    (firstSector : Int)
    (buf : Buffer)
    (n : Nat) :
    (file.readSectors disk firstSector buf n).isSome = true ↔
      ∀ a ∈ lookups firstSector n, a.Succeeds file.hdr := by
  induction n with
  | zero => simp [readSectors, lookups]
  | succ n ih =>
      rw [forall_lookups_succ, ← ih]
      refine isSome_bind_iff fun buf => ?_
      refine lookup_isSome_iff fun sector => ?_
      unfold SynchDisk.readSector
      split
      · rename_i hSector
        simpa using hSector
      · rename_i hSector
        simpa using hSector

theorem writeSectors_isSome_iff
    (disk : Disk)
    (firstSector : Int)
    (buf : Buffer)
    (n : Nat) :
    (file.writeSectors disk firstSector buf n).isSome =
        true ↔
      ∀ a ∈ lookups firstSector n, a.Succeeds file.hdr := by
  induction n with
  | zero => simp [writeSectors, lookups]
  | succ n ih =>
      rw [forall_lookups_succ, ← ih]
      refine isSome_bind_iff fun disk => ?_
      refine lookup_isSome_iff fun sector => ?_
      unfold SynchDisk.writeSector
      split
      · rename_i hSector
        simpa using hSector
      · rename_i hSector
        simpa using hSector

theorem copyOut_isSome_iff
    (buf : Buffer)
    (size start numBytes : Int) :
    (buf.copyOut size start numBytes).isSome = true ↔
      0 ≤ start ∧ 0 ≤ numBytes ∧ start + numBytes ≤ size := by
  unfold Buffer.copyOut
  split
  · rename_i hInside
    simpa using hInside
  · rename_i hOutside
    simpa using hOutside

theorem copyIn_isSome_iff
    (buf : Buffer)
    (size start : Int)
    (source : List Byte)
    (numBytes : Int) :
    (buf.copyIn size start source numBytes).isSome = true ↔
      (Access.copy size start source.length numBytes).Succeeds
        file.hdr := by
  unfold Buffer.copyIn
  simp only [Access.Succeeds]
  split
  · rename_i hInside
    simpa using hInside
  · rename_i hOutside
    simpa using hOutside

/- What is asked for is an upper bound for what is copied. -/
theorem clip_bounds
    {fileLength numBytes position : Int}
    (hLength : 0 ≤ fileLength ∧ fileLength < 2 ^ 31)
    (hBytes : 0 < numBytes ∧ numBytes < 2 ^ 31)
    (hPosition :
      -(2 ^ 31) ≤ position ∧ position < fileLength) :
    0 < clip fileLength numBytes position ∧
      clip fileLength numBytes position ≤ numBytes := by
  unfold clip
  by_cases hEnd : position + numBytes < 2 ^ 31
  · rw [wrap_of_mem (by omega) hEnd]
    split
    · rw [wrap_of_mem (by omega) (by omega)]
      omega
    · omega
  · have hWrap : wrap (position + numBytes) < 0 := by
      unfold wrap
      rw [Int.bmod_def]
      omega
    rw [if_neg (by omega)]
    omega

/- A read succeeds just if all its accesses do. -/
theorem readAt_isSome_iff
    (memory : Memory)
    (disk : Disk)
    {numBytes position : Int}
    (hLength : 0 ≤ file.hdr.fileLength)
    (hBytes : numBytes < 2 ^ 31)
    (hPosition : -(2 ^ 31) ≤ position) :
    (file.readAt memory disk numBytes position).isSome =
        true ↔
      ∀ a ∈ readAccesses file.hdr.fileLength numBytes position,
        a.Succeeds file.hdr := by
  unfold readAt readAccesses
  dsimp only
  split
  · simp
  · rename_i hInside
    have hLimit : file.hdr.fileLength < 2 ^ 31 :=
      BitVec.toInt_lt
    have hClip := clip_bounds ⟨hLength, hLimit⟩
      (by omega : 0 < numBytes ∧ numBytes < 2 ^ 31)
      (by omega : -(2 ^ 31) ≤ position ∧
        position < file.hdr.fileLength)
    rw [List.forall_mem_append, List.forall_mem_singleton,
      ← readSectors_isSome_iff disk _ (memory 0)]
    refine isSome_bind_iff fun buf => ?_
    simp only [Access.Succeeds]
    refine (isSome_bind_iff fun bytes => iff_of_true rfl
      trivial).trans ?_
    rw [copyOut_isSome_iff]
    constructor
    · rintro ⟨⟨hStart, hCount, hSize⟩, _⟩
      exact ⟨hStart, hCount, hSize, hClip.2⟩
    · rintro ⟨hStart, hCount, hSize, _⟩
      exact ⟨⟨hStart, hCount, hSize⟩, trivial⟩

theorem readPartial_isSome_iff
    (memory : Memory)
    (disk : Disk)
    (buf : Buffer)
    (start : Nat)
    {position : Int}
    (hLength : 0 ≤ file.hdr.fileLength)
    (hPosition : -(2 ^ 31) ≤ position) :
    (file.readPartial memory disk buf start position).isSome =
        true ↔
      ∀ a ∈ readAccesses file.hdr.fileLength SectorSize
        position, a.Succeeds file.hdr := by
  rw [← readAt_isSome_iff memory disk hLength (by decide)
    hPosition]
  unfold readPartial
  refine (isSome_bind_iff fun bytes => iff_of_true rfl
    trivial).trans ?_
  exact iff_of_eq (and_true _)

theorem readEdges_isSome_iff
    (memory : Memory)
    (disk : Disk)
    (buf : Buffer)
    {firstSector lastSector : Int}
    (firstAligned lastAligned : Bool)
    (hLength : 0 ≤ file.hdr.fileLength)
    (hFirst : -(2 ^ 31) ≤ firstSector * SectorSize)
    (hLast : -(2 ^ 31) ≤ lastSector * SectorSize) :
    (file.readEdges memory disk buf firstSector lastSector
        firstAligned lastAligned).isSome = true ↔
      ∀ a ∈ edgeAccesses file.hdr.fileLength firstSector
        lastSector firstAligned lastAligned,
        a.Succeeds file.hdr := by
  unfold edgeAccesses
  rw [List.forall_mem_append]
  have hSkip : ∀ buf : Buffer, (some buf).isSome = true ↔
      ∀ a ∈ ([] : List Access), a.Succeeds file.hdr := by
    simp
  unfold readEdges
  dsimp only
  have hSecond : ∀ buf : Buffer,
      (if !lastAligned &&
          (firstSector != lastSector || firstAligned) then
        file.readPartial (memory.after 1) disk buf
          ((lastSector - firstSector) * SectorSize).toNat
          (lastSector * SectorSize)
      else
        some buf).isSome = true ↔
      ∀ a ∈ if !lastAligned &&
            (firstSector != lastSector || firstAligned) then
          readAccesses file.hdr.fileLength SectorSize
            (lastSector * SectorSize)
        else
          [],
        a.Succeeds file.hdr := by
    intro buf
    split
    · exact readPartial_isSome_iff (memory.after 1) disk buf _
        hLength hLast
    · exact hSkip buf
  split
  · rw [← readPartial_isSome_iff memory disk buf 0 hLength
      hFirst]
    exact isSome_bind_iff hSecond
  · rw [← hSkip buf]
    exact isSome_bind_iff hSecond

/- The start of a sector is not below the smallest number. -/
theorem le_divRoundDown_mul
    {x : Int}
    (hx : -(2 ^ 31) ≤ x) :
    -(2 ^ 31) ≤ divRoundDown x SectorSize * SectorSize := by
  unfold divRoundDown
  rcases Int.le_total 0 x with hPos | hNeg
  · have hDiv := Int.tdiv_nonneg hPos
      (Int.natCast_nonneg SectorSize)
    simp only [SectorSize] at hDiv ⊢
    omega
  · have hAbs : x = -(x.natAbs : Int) := by
      omega
    have hDiv : x.tdiv SectorSize =
        -((x.natAbs / SectorSize : Nat) : Int) := by
      conv_lhs => rw [hAbs]
      rw [Int.neg_tdiv]
      rfl
    rw [hDiv]
    simp only [SectorSize]
    omega

/- A read that succeeds returns as many bytes as it says. -/
theorem transferred_of_readAt
    {memory : Memory}
    {disk : Disk}
    {numBytes position count : Int}
    {bytes : List Byte}
    (hRun : file.readAt memory disk numBytes position =
      some (count, bytes)) :
    count = transferred file.hdr.fileLength numBytes position ∧
      bytes.length = count.toNat := by
  unfold readAt at hRun
  unfold transferred
  dsimp only at hRun
  split at hRun
  · rename_i hEmpty
    cases hRun
    rw [if_pos hEmpty]
    exact ⟨rfl, rfl⟩
  · rename_i hInside
    rcases Option.bind_eq_some_iff.mp hRun with
      ⟨buf, _, hRest⟩
    rcases Option.bind_eq_some_iff.mp hRest with
      ⟨out, hCopy, hEq⟩
    cases hEq
    rw [if_neg hInside]
    refine ⟨rfl, ?_⟩
    unfold Buffer.copyOut at hCopy
    split at hCopy
    · cases hCopy
      rw [List.length_map, List.length_range]
    · cases hCopy

theorem transferred_of_writeAt
    {memory : Memory}
    {disk disk' : Disk}
    {source : List Byte}
    {numBytes position count : Int}
    (hRun : file.writeAt memory disk source numBytes position =
      some (count, disk')) :
    count =
      transferred file.hdr.fileLength numBytes position := by
  unfold writeAt at hRun
  unfold transferred
  dsimp only at hRun
  split at hRun
  · rename_i hEmpty
    cases hRun
    rw [if_pos hEmpty]
  · rename_i hInside
    rcases Option.bind_eq_some_iff.mp hRun with
      ⟨buf, _, hRest⟩
    rcases Option.bind_eq_some_iff.mp hRest with
      ⟨buf', _, hRest⟩
    rcases Option.bind_eq_some_iff.mp hRest with
      ⟨disk₁, _, hEq⟩
    cases hEq
    rw [if_neg hInside]

/- A write succeeds just if all its accesses do. -/
theorem writeAt_isSome_iff
    (memory : Memory)
    (disk : Disk)
    {source : List Byte}
    {numBytes position : Int}
    (hLength : 0 ≤ file.hdr.fileLength)
    (hSource : source.length = numBytes)
    (hPosition : -(2 ^ 31) ≤ position) :
    (file.writeAt memory disk source numBytes
        position).isSome = true ↔
      ∀ a ∈ writeAccesses file.hdr.fileLength numBytes
        position, a.Succeeds file.hdr := by
  unfold writeAt writeAccesses
  dsimp only
  split
  · simp
  · rw [List.forall_mem_append, List.forall_mem_cons]
    have hWrap : ∀ x, -(2 ^ 31) ≤ wrap x := by
      intro x
      have hLe := Int.le_bmod (x := x)
        (by decide : 0 < 2 ^ 32)
      unfold wrap
      omega
    rw [← readEdges_isSome_iff (memory.after 1) disk (memory 0)
      _ _ hLength (le_divRoundDown_mul hPosition)
      (le_divRoundDown_mul (hWrap _))]
    refine isSome_bind_iff fun buf => ?_
    rw [← hSource, ← copyIn_isSome_iff buf]
    refine isSome_bind_iff fun buf => ?_
    rw [← writeSectors_isSome_iff disk _ buf]
    exact (isSome_bind_iff fun _ =>
      iff_of_true rfl trivial).trans (iff_of_eq (and_true _))

end OpenFile

end Nachos

------------------------------------
-- Requests Inside of the File
------------------------------------

namespace Nachos

open Bytes CInt

/-
  The lookup is for a sector of the file, or the copy is
  inside of both buffers.
-/
def Access.Inside
    (hdr : FileHeader) :
    Access → Prop
| .lookup index => 0 ≤ index ∧ index < hdr.numSectors.toInt
| .copy size start callerBytes numBytes =>
    0 ≤ start ∧ 0 ≤ numBytes ∧ start + numBytes ≤ size ∧
      numBytes ≤ callerBytes

/- The number of sectors is what the length needs. -/
structure FileHeader.Sized
    (hdr : FileHeader) : Prop where
  length_nonneg : 0 ≤ hdr.numBytes.toInt
  numSectors_eq :
    hdr.numSectors.toInt =
      (hdr.numBytes.toInt + (SectorSize - 1)) / SectorSize
  numSectors_le : hdr.numSectors.toInt ≤ NumDirect

namespace OpenFile

variable {hdr : FileHeader}

theorem mem_lookups
    {firstSector : Int}
    {n : Nat}
    {a : Access} :
    a ∈ lookups firstSector n ↔
      ∃ k < n, a = .lookup (firstSector + (k : Nat)) := by
  unfold lookups
  simp only [List.mem_map, List.mem_range, eq_comm]

/- The sectors of a request that ends inside of the file. -/
theorem extent_inside
    (hSized : hdr.Sized)
    {n : Int}
    {p k : Nat}
    (hk : 0 < k)
    (hLe : (p + k : Nat) ≤ hdr.numBytes.toInt)
    (hn : k ≤ n) :
    (Access.copy
      ((1 + (((p + k - 1) / SectorSize : Nat) : Int) -
        (p / SectorSize : Nat)) * SectorSize)
      (p - ((p / SectorSize : Nat) : Int) * SectorSize) n
      k).Inside hdr ∧
    ∀ a ∈ lookups ((p / SectorSize : Nat) : Int)
      (1 + (((p + k - 1) / SectorSize : Nat) : Int) -
        (p / SectorSize : Nat)).toNat, a.Inside hdr := by
  have hSectors := hSized.numSectors_eq
  constructor
  · simp only [Access.Inside, SectorSize]
    omega
  · intro a ha
    rcases mem_lookups.mp ha with ⟨j, hj, rfl⟩
    simp only [Access.Inside, SectorSize] at hj hSectors ⊢
    omega

/- The count and the sectors of such a request. -/
theorem exists_extent
    {length p : Nat}
    {n : Int}
    (hn : 0 < n)
    (hp : p < length)
    (hLength : length ≤ MaxFileSize)
    (hEnd : p + n < 2 ^ 31) :
    ∃ k : Nat, 0 < k ∧ p + k ≤ length ∧ k ≤ n ∧
      clip length n p = k ∧
      divRoundDown (wrap (wrap ((p : Int) + k) - 1))
          SectorSize =
        ((p + k - 1) / SectorSize : Nat) := by
  have hCount := FixedArray.count_of_inside hn hp
  have hk : 0 < FixedArray.count length n p := by
    omega
  have hLe := FixedArray.add_count_le hk
  exact ⟨FixedArray.count length n p, hk, hLe, by omega,
    clip_eq hn hp hLength hEnd,
    lastSector_eq hk hLe hLength⟩

end OpenFile

namespace FileHeader.Sized

open OpenFile

variable {hdr : FileHeader}

theorem exists_length
    (hSized : hdr.Sized) :
    ∃ length : Nat, hdr.fileLength = length ∧
      length ≤ MaxFileSize := by
  have hNonneg := hSized.length_nonneg
  have hSectors := hSized.numSectors_eq
  have hTable := hSized.numSectors_le
  refine ⟨hdr.fileLength.toNat, ?_, ?_⟩
  · simp only [fileLength]
    omega
  · simp only [fileLength, MaxFileSize, NumDirect, SectorSize]
      at *
    omega

/- A read at a position that is not negative. -/
theorem readAccesses_inside
    (hSized : hdr.Sized)
    {n : Int}
    {p : Nat}
    (hEnd : p + n < 2 ^ 31) :
    ∀ a ∈ readAccesses hdr.fileLength n p, a.Inside hdr := by
  rcases hSized.exists_length with ⟨length, hEq, hLength⟩
  unfold readAccesses
  rw [hEq]
  split
  · intro a ha
    exact absurd ha List.not_mem_nil
  · rename_i hInside
    rcases exists_extent (n := n) (by omega)
      (by omega : p < length) hLength hEnd with
      ⟨k, hk, hLe, hn, hClip, hLast⟩
    have hFirst : divRoundDown (p : Int) SectorSize =
        (p / SectorSize : Nat) :=
      divRoundDown_natCast p SectorSize
    have hExtent := extent_inside (p := p) hSized hk (by
      unfold fileLength at hEq
      omega) hn
    simp only [hClip, hFirst, hLast]
    rw [List.forall_mem_append, List.forall_mem_singleton]
    exact ⟨hExtent.2, hExtent.1⟩

/- A write reads in sectors of the file. -/
theorem edgeAccesses_inside
    (hSized : hdr.Sized)
    (first last : Nat)
    (hFirst : (first * SectorSize : Nat) ≤ MaxFileSize)
    (hLast : (last * SectorSize : Nat) ≤ MaxFileSize)
    (firstAligned lastAligned : Bool) :
    ∀ a ∈ edgeAccesses hdr.fileLength first last firstAligned
      lastAligned, a.Inside hdr := by
  have hSector : ∀ i : Nat, i * SectorSize ≤ MaxFileSize →
      ∀ a ∈ readAccesses hdr.fileLength SectorSize
        ((i : Int) * SectorSize), a.Inside hdr := by
    intro i hi
    have hCast : (i : Int) * SectorSize =
        ((i * SectorSize : Nat) : Int) := by
      rw [Int.natCast_mul]
    rw [hCast]
    apply hSized.readAccesses_inside
    simp only [MaxFileSize, NumDirect, SectorSize] at hi ⊢
    omega
  unfold edgeAccesses
  rw [List.forall_mem_append]
  constructor
  · split
    · exact hSector first hFirst
    · exact fun a ha => absurd ha List.not_mem_nil
  · split
    · exact hSector last hLast
    · exact fun a ha => absurd ha List.not_mem_nil

theorem writeAccesses_inside
    (hSized : hdr.Sized)
    {n : Int}
    {p : Nat}
    (hEnd : p + n < 2 ^ 31) :
    ∀ a ∈ writeAccesses hdr.fileLength n p, a.Inside hdr := by
  rcases hSized.exists_length with ⟨length, hEq, hLength⟩
  have hEdges := hSized.edgeAccesses_inside
  rw [hEq] at hEdges
  unfold writeAccesses
  rw [hEq]
  split
  · intro a ha
    exact absurd ha List.not_mem_nil
  · rename_i hInside
    rcases exists_extent (n := n) (by omega)
      (by omega : p < length) hLength hEnd with
      ⟨k, hk, hLe, hn, hClip, hLast⟩
    have hFirst : divRoundDown (p : Int) SectorSize =
        (p / SectorSize : Nat) :=
      divRoundDown_natCast p SectorSize
    have hExtent := extent_inside (p := p) hSized hk (by
      unfold fileLength at hEq
      omega) hn
    simp only [hClip, hFirst, hLast]
    rw [List.forall_mem_append, List.forall_mem_cons]
    refine ⟨?_, hExtent⟩
    apply hEdges
    · simp only [MaxFileSize, NumDirect, SectorSize]
        at hLength ⊢
      omega
    · simp only [MaxFileSize, NumDirect, SectorSize]
        at hLength ⊢
      omega

end FileHeader.Sized

end Nachos

------------------------------------
-- Requests That Leave the File
------------------------------------

namespace Nachos

open Bytes CInt

namespace FileHeader

open OpenFile

/-
  The count that is returned, and all accesses of a read and
  of a write.
-/
structure Bounded
    (hdr : FileHeader)
    (numBytes position : Int) : Prop where
  count :
    0 ≤ transferred hdr.fileLength numBytes position ∧
      transferred hdr.fileLength numBytes position ≤
        max 0 (hdr.fileLength - position)
  reads :
    ∀ a ∈ readAccesses hdr.fileLength numBytes position,
      a.Inside hdr
  writes :
    ∀ a ∈ writeAccesses hdr.fileLength numBytes position,
      a.Inside hdr

variable {hdr : FileHeader}

/- A request that is empty or starts behind the file. -/
theorem bounded_of_empty
    {numBytes position : Int}
    (hEmpty : numBytes ≤ 0 ∨ position ≥ hdr.fileLength) :
    hdr.Bounded numBytes position := by
  constructor
  · unfold transferred
    rw [if_pos hEmpty]
    omega
  · unfold readAccesses
    rw [if_pos hEmpty]
    exact fun a ha => absurd ha List.not_mem_nil
  · unfold writeAccesses
    rw [if_pos hEmpty]
    exact fun a ha => absurd ha List.not_mem_nil

theorem Sized.bounded
    (hSized : hdr.Sized)
    {n : Int}
    {p : Nat}
    (hEnd : p + n < 2 ^ 31) :
    hdr.Bounded n p := by
  refine ⟨?_, hSized.readAccesses_inside hEnd,
    hSized.writeAccesses_inside hEnd⟩
  rcases hSized.exists_length with ⟨length, hEq, hLength⟩
  unfold transferred
  rw [hEq]
  split
  · omega
  · rename_i hInside
    rcases exists_extent (n := n) (by omega)
      (by omega : p < length) hLength hEnd with
      ⟨k, hk, hLe, _, hClip, _⟩
    rw [hClip]
    omega

/-
  With a negative position a read looks up a sector before
  the file or copies from before its buffer.
-/
theorem Sized.not_bounded_of_neg
    (hSized : hdr.Sized)
    {n p : Int}
    (hn : 0 < n ∧ n < 2 ^ 31)
    (hp : -(2 ^ 31) ≤ p ∧ p < 0) :
    ¬ hdr.Bounded n p := by
  intro hBounded
  have hReads := hBounded.reads
  rcases hSized.exists_length with ⟨length, hEq, hLength⟩
  have hMax : (length : Int) < 2 ^ 31 := by
    simp only [MaxFileSize, NumDirect, SectorSize] at hLength
    omega
  have hClip := clip_bounds
    (⟨by omega, hMax⟩ : 0 ≤ (length : Int) ∧ _) hn
    ⟨hp.1, by omega⟩
  unfold readAccesses at hReads
  rw [hEq, if_neg (by omega)] at hReads
  dsimp only at hReads
  generalize clip length n p = k at hReads hClip
  rw [wrap_of_mem (by omega : -(2 ^ 31) ≤ p + k) (by omega),
    wrap_of_mem (by omega : -(2 ^ 31) ≤ p + k - 1) (by omega),
    List.forall_mem_append, List.forall_mem_singleton] at hReads
  have hOrder : divRoundDown p SectorSize ≤
      divRoundDown (p + k - 1) SectorSize :=
    Int.tdiv_le_tdiv (by decide) (by omega)
  generalize divRoundDown p SectorSize = first at hReads hOrder
  generalize divRoundDown (p + k - 1) SectorSize = last
    at hReads hOrder
  have hLookup := hReads.1 (.lookup first)
    (mem_lookups.mpr ⟨0, by omega, by simp⟩)
  have hCopy := hReads.2
  simp only [Access.Inside, SectorSize] at hLookup hCopy
  omega

/- An end that overflows makes the request too long. -/
theorem Sized.not_bounded_of_overflow
    (hSized : hdr.Sized)
    {n p : Int}
    (hn : 0 < n ∧ n < 2 ^ 31)
    (hp : 0 ≤ p ∧ p < hdr.fileLength)
    (hEnd : 2 ^ 31 ≤ p + n) :
    ¬ hdr.Bounded n p := by
  intro hBounded
  have hCount := hBounded.count.2
  rcases hSized.exists_length with ⟨length, hEq, hLength⟩
  simp only [MaxFileSize, NumDirect, SectorSize] at hLength
  have hWrap : wrap (p + n) < 0 := by
    unfold wrap
    rw [Int.bmod_def]
    omega
  unfold transferred clip at hCount
  rw [if_neg (by omega), if_neg (by omega)] at hCount
  omega

/-
  Requests stay inside just if they are empty, start behind
  the file, or have a position and an end that are no
  negative numbers.
-/
theorem bounded_iff
    (hSized : hdr.Sized)
    (numBytes position : BitVec 32) :
    hdr.Bounded numBytes.toInt position.toInt ↔
      numBytes.toInt ≤ 0 ∨
      hdr.fileLength ≤ position.toInt ∨
      (0 ≤ position.toInt ∧
        position.toInt + numBytes.toInt < 2 ^ 31) := by
  have hBytes : numBytes.toInt < 2 ^ 31 := BitVec.toInt_lt
  have hPosition : -(2 ^ 31) ≤ position.toInt :=
    BitVec.le_toInt position
  constructor
  · intro hBounded
    by_contra hNot
    by_cases hNeg : position.toInt < 0
    · exact hSized.not_bounded_of_neg (by omega) (by omega)
        hBounded
    · exact hSized.not_bounded_of_overflow (by omega)
        (by omega) (by omega) hBounded
  · rintro (hZero | hBehind | ⟨hLow, hEnd⟩)
    · exact bounded_of_empty (Or.inl hZero)
    · exact bounded_of_empty (Or.inr hBehind)
    · rcases Int.eq_ofNat_of_zero_le hLow with ⟨p, hp⟩
      rw [hp] at hEnd ⊢
      exact hSized.bounded hEnd

/- A file of ten bytes. -/
def tenBytes :
    FileHeader :=
  ⟨10, 1, fun _ => 0⟩

theorem tenBytes_sized :
    tenBytes.Sized :=
  ⟨by decide, by decide, by decide⟩

theorem tenBytes_bounded_iff :
    tenBytes.Sized ∧
      (tenBytes.Bounded (4 : BitVec 32).toInt
          (8 : BitVec 32).toInt ↔
        (4 : BitVec 32).toInt ≤ 0 ∨
        tenBytes.fileLength ≤ (8 : BitVec 32).toInt ∨
        (0 ≤ (8 : BitVec 32).toInt ∧
          (8 : BitVec 32).toInt + (4 : BitVec 32).toInt <
            2 ^ 31)) :=
  ⟨tenBytes_sized, bounded_iff tenBytes_sized 4 8⟩

/-
  A read at position -1 copies from before its buffer, and
  the longest read at position 1 is not cut at the end.
-/
theorem requests_leave_file :
    tenBytes.Sized ∧
      .copy 128 (-1) 1 1 ∈
        readAccesses tenBytes.fileLength 1 (-1) ∧
      ¬ tenBytes.Bounded 1 (-1) ∧
      transferred tenBytes.fileLength (2 ^ 31 - 1) 1 =
        2 ^ 31 - 1 ∧
      ¬ tenBytes.Bounded (2 ^ 31 - 1) 1 :=
  ⟨tenBytes_sized, by decide,
    tenBytes_sized.not_bounded_of_neg (by decide) (by decide),
    by decide,
    tenBytes_sized.not_bounded_of_overflow (by decide)
      (by decide) (by decide)⟩

end FileHeader

end Nachos
