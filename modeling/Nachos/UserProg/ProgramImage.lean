import Nachos.Bin.Segments
import Nachos.FileSys.Transfer
import Nachos.Lib.Tiling
import Nachos.UserProg.Loader

/-
  The image of a program, from the COFF file to memory.

  The converter copies the sections of a file to segments, and
  the loader copies the segments to memory.

  Main declarations:
    * `NoffHeader.Separate`
    * `Preserves`
    * `Executable.readSegment_of_filled`
    * `Converter.Converted.preserves`
    * `coff2noff_preserves_iff`
-/

------------------------------------
-- Loading Segments
------------------------------------

namespace Nachos

open Bytes CInt Tiling

/-
  `new` is `old` with the bytes of the sections of a kind at
  their addresses.
-/
structure Copied
    (coff : List Byte)
    (sections : List ScnHdr)
    (kind : ScnHdr → Bool)
    (old new : Nat → Byte) : Prop where
  bytes :
    ∀ s ∈ sections, kind s = true →
      ∀ i, i < s.length →
        coffByte coff (s.sScnptr.toInt + i) =
          some (new (s.start + i))
  kept :
    ∀ a,
      (∀ s ∈ sections, kind s = true →
        ¬ Covers ScnHdr.start ScnHdr.length s a) →
      new a = old a

namespace Executable

variable {segment : Segment}
variable {coff header segments : List Byte}
variable {s : ScnHdr}

/- A request for bytes that the file has. -/
theorem readAt_natCast
    (executable : Executable)
    (n p : Nat) :
    executable.readAt n p =
      some ((executable.drop p).take n) := by
  unfold readAt
  rw [if_pos (Int.natCast_nonneg p), Int.toNat_natCast,
    FixedArray.read_natCast]

/-
  A segment brings the bytes of its section to their
  addresses, and leaves all other addresses alone.
-/
theorem readSegment_of_holds
    (hHolds : segment.Holds coff segments s)
    (hHeader : header.length = NoffHeader.size)
    (hSmall : NoffHeader.size + segments.length < 2 ^ 31)
    (hFits : s.start + s.length ≤ MemorySize)
    (mainMemory : Nat → Byte) :
    ∃ memory,
      readSegment (header ++ segments) segment mainMemory =
        some memory ∧
      (∀ i, i < s.length →
        coffByte coff (s.sScnptr.toInt + i) =
          some (memory (s.start + i))) ∧
      ∀ a, ¬ Covers ScnHdr.start ScnHdr.length s a →
        memory a = mainMemory a := by
  have hLower := hHolds.lower
  have hUpper := hHolds.upper
  have hPos := ScnHdr.length_pos hHolds.nonempty
  have hSize : segment.size.toInt = s.length := by
    rw [hHolds.size]
    apply toInt_eq_toNat
    change s.length < 2 ^ 31
    omega
  have hAddr : segment.inFileAddr.toInt =
      segment.inFileAddr.toNat :=
    toInt_eq_toNat (by omega)
  have hStart : segment.virtualAddr.toInt = s.start := by
    rw [hHolds.virtualAddr]
    apply toInt_eq_toNat
    change s.start < 2 ^ 31
    simp only [MemorySize, NumPhysPages, PageSize, SectorSize]
      at hFits
    omega
  generalize hBytes :
    ((header ++ segments).drop segment.inFileAddr.toNat).take
      s.length = bytes
  have hLength : bytes.length = s.length := by
    rw [← hBytes, List.length_take, List.length_drop,
      List.length_append]
    omega
  have hByte : ∀ i, i < s.length →
      bytes[i]? = coffByte coff (s.sScnptr.toInt + i) := by
    intro i hi
    rw [← hHolds.bytes i hi, ← hBytes,
      List.getElem?_take_of_lt hi, List.getElem?_drop,
      List.getElem?_append_right (by omega), hHeader]
    congr 1
    omega
  refine ⟨Buffer.store mainMemory s.start bytes, ?_, ?_, ?_⟩
  · unfold readSegment
    rw [hSize, if_pos (by omega), hAddr, readAt_natCast, hBytes,
      hStart]
    change Buffer.copyIn mainMemory MemorySize s.start bytes
      bytes.length = _
    unfold Buffer.copyIn
    rw [if_pos (by omega), Int.toNat_natCast, Int.toNat_natCast,
      List.take_length]
  · intro i hi
    rw [Buffer.store_of_mem _ (by omega) (by omega),
      Nat.add_sub_cancel_left, ← hByte i hi,
      List.getD_eq_getElem?_getD,
      List.getElem?_eq_getElem (by omega)]
    rfl
  · intro a ha
    apply Buffer.store_of_not_mem
    rw [hLength]
    exact ha

/- The same for a segment that may be empty. -/
theorem readSegment_of_filled
    {kind : ScnHdr → Bool}
    {sections : List ScnHdr}
    (hFilled : segment.Filled coff segments kind sections)
    (hHeader : header.length = NoffHeader.size)
    (hSmall : NoffHeader.size + segments.length < 2 ^ 31)
    (hFits :
      ∀ s ∈ sections, s.sSize ≠ 0 →
        s.start + s.length ≤ MemorySize)
    (mainMemory : Nat → Byte) :
    ∃ memory,
      readSegment (header ++ segments) segment mainMemory =
        some memory ∧
      Copied coff sections kind mainMemory memory := by
  rcases hFilled with ⟨hSize, hNone⟩ | ⟨s, hs, hIs, hHolds, hOnly⟩
  · refine ⟨mainMemory, ?_, ?_, ?_⟩
    · unfold readSegment
      rw [hSize]
      exact if_neg (Int.lt_irrefl 0)
    · intro t ht hIs
      rw [hNone t ht] at hIs
      cases hIs
    · intro a _
      rfl
  · rcases readSegment_of_holds hHolds hHeader hSmall
        (hFits s hs hHolds.nonempty) mainMemory with
      ⟨memory, hRead, hLoaded, hKept⟩
    refine ⟨memory, hRead, ?_, ?_⟩
    · intro t ht hIs'
      rw [hOnly t ht hIs']
      exact hLoaded
    · intro a ha
      exact hKept a (ha s hs hIs)

end Executable

end Nachos

------------------------------------
-- The Program in Memory
------------------------------------

namespace Nachos

open Bytes CInt Tiling

variable {total : Nat}

/-
  The segments with bytes in a file of `length` bytes lie
  behind the header and do not overlap.
-/
structure NoffHeader.Separate
    (noffH : NoffHeader)
    (length : Nat) : Prop where
  code :
    noffH.code.size ≠ 0 →
      NoffHeader.size ≤ noffH.code.inFileAddr.toNat ∧
        noffH.code.inFileAddr.toNat +
          noffH.code.size.toNat ≤ length
  initData :
    noffH.initData.size ≠ 0 →
      NoffHeader.size ≤ noffH.initData.inFileAddr.toNat ∧
        noffH.initData.inFileAddr.toNat +
          noffH.initData.size.toNat ≤ length
  apart : noffH.code.Apart noffH.initData

/-
  Memory has the bytes of the file at the addresses of its
  text and data, and zero at all others below `size`.
-/
structure HoldsProgram
    (coff : List Byte)
    (size : Nat)
    (memory : Nat → Byte) : Prop where
  loaded :
    ∀ s ∈ coffSections coff, s.isLoaded = true →
      ∀ i, i < s.length →
        coffByte coff (s.sScnptr.toInt + i) =
          some (memory (s.start + i))
  cleared :
    ∀ a, a < size →
      (∀ s ∈ coffSections coff, s.isLoaded = true →
        ¬ Covers ScnHdr.start ScnHdr.length s a) →
      memory a = 0

/- The loader accepts the converted file and gets it right. -/
def Preserves
    (garbage : NoffHeader)
    (coff noff : List Byte)
    (mainMemory : Nat → Byte) : Prop :=
  ∃ noffH space memory,
    noff.take NoffHeader.size =
        List.ofFn (NoffHeader.image noffH) ∧
      noffH.Separate noff.length ∧
      AddrSpace.load garbage noff mainMemory =
        some (space, memory) ∧
      HoldsProgram coff (space.numPages.toNat * PageSize)
        memory

/- There is no byte at a negative position. -/
theorem Preserves.pointer_nonneg
    {garbage : NoffHeader}
    {coff noff : List Byte}
    {mainMemory : Nat → Byte}
    (hPreserves : Preserves garbage coff noff mainMemory)
    {s : ScnHdr}
    (hs : s ∈ coffSections coff)
    (hSize : s.sSize ≠ 0)
    (hLoaded : s.isLoaded = true) :
    0 ≤ s.sScnptr.toInt := by
  rcases hPreserves with ⟨_, _, _, _, _, _, hHolds⟩
  have hPos := ScnHdr.length_pos hSize
  have hByte := hHolds.loaded s hs hLoaded 0 hPos
  by_contra hNeg
  rw [coffByte, if_neg (by omega)] at hByte
  cases hByte

theorem NoffHeader.numPages_eq
    {noffH : NoffHeader}
    (hSizes :
      noffH.code.size.toNat + noffH.initData.size.toNat +
        noffH.uninitData.size.toNat = total)
    (hFits : total + UserStackSize < 2 ^ 32) :
    noffH.numPages =
      ((total + UserStackSize + (PageSize - 1)) / PageSize :
        Nat) := by
  have hSize : (noffH.code.size + noffH.initData.size +
        noffH.uninitData.size +
        BitVec.ofNat 32 UserStackSize).toNat =
      total + UserStackSize := by
    simp only [BitVec.toNat_add, BitVec.toNat_ofNat,
      UserStackSize] at hFits ⊢
    omega
  unfold NoffHeader.numPages
  dsimp only
  rw [hSize]
  exact divRoundUp_natCast _ (by decide)

theorem AddrSpace.load_eq
    (garbage : NoffHeader)
    {noffH : NoffHeader}
    {segments : List Byte}
    {mainMemory withCode memory : Nat → Byte}
    (hMagic : noffH.noffMagic = NOFFMAGIC)
    (hPages : noffH.numPages ≤ NumPhysPages)
    (hCode :
      Executable.readSegment
        (List.ofFn (NoffHeader.image noffH) ++ segments)
        noffH.code
        (fun a =>
          if a < noffH.numPages.toNat * PageSize then 0
          else mainMemory a) = some withCode)
    (hInitData :
      Executable.readSegment
        (List.ofFn (NoffHeader.image noffH) ++ segments)
        noffH.initData withCode = some memory) :
    AddrSpace.load garbage
        (List.ofFn (NoffHeader.image noffH) ++ segments)
        mainMemory =
      some
        ({ pageTable := TranslationEntry.initial
           numPages := BitVec.ofInt 32 noffH.numPages },
          memory) := by
  have hHeader : Executable.readAt
        (List.ofFn (NoffHeader.image noffH) ++ segments)
        (NoffHeader.size : Nat) (0 : Nat) =
      some (List.ofFn (NoffHeader.image noffH)) := by
    rw [Executable.readAt_natCast, List.drop_zero,
      List.take_left' List.length_ofFn]
  unfold AddrSpace.load
  change (Executable.readAt _ (NoffHeader.size : Nat)
    (0 : Nat)).bind _ = _
  rw [hHeader]
  simp only [Option.bind_some, overlay_ofFn,
    Equiv.symm_apply_apply]
  rw [if_pos ⟨hMagic, hPages⟩, hCode]
  change (Executable.readSegment _ _ withCode).bind _ = _
  rw [hInitData]
  rfl

/- The code is copied first, and then the data. -/
theorem Copied.holdsProgram
    {coff : List Byte}
    {total size : Nat}
    {cleared withCode memory : Nat → Byte}
    (hTiles :
      Tiles ScnHdr.start ScnHdr.length (coffSections coff)
        total)
    (hCleared : ∀ a, a < size → cleared a = 0)
    (hCode :
      Copied coff (coffSections coff) ScnHdr.isCode cleared
        withCode)
    (hData :
      Copied coff (coffSections coff) ScnHdr.isInitData
        withCode memory) :
    HoldsProgram coff size memory := by
  constructor
  · intro s hs hLoaded i hi
    have hSize : s.sSize ≠ 0 := by
      intro hZero
      rw [ScnHdr.length, hZero] at hi
      exact Nat.not_lt_zero i hi
    rcases ScnHdr.isLoaded_iff.mp ⟨hSize, hLoaded⟩ with
      hIsCode | hIsData
    · rw [hData.kept (s.start + i)]
      · exact hCode.bytes s hs hIsCode i hi
      · -- the data is at other addresses than the code
        intro t ht hIsData hCovers
        have hSame : t = s := hTiles.eq_of_covers ht hs hCovers
          ⟨Nat.le_add_right _ _, Nat.add_lt_add_left hi _⟩
        have hText := (Bool.and_eq_true_iff.mp hIsCode).2
        rw [hSame, ScnHdr.isInitData_of_isText hText] at hIsData
        cases hIsData
    · exact hData.bytes s hs hIsData i hi
  · intro a ha hOther
    rw [hData.kept a, hCode.kept a]
    · exact hCleared a ha
    · intro s hs hIs
      have hLoaded := ScnHdr.isLoaded_iff.mpr (Or.inl hIs)
      exact hOther s hs hLoaded.2
    · intro s hs hIs
      have hLoaded := ScnHdr.isLoaded_iff.mpr (Or.inr hIs)
      exact hOther s hs hLoaded.2

/- The loader undoes the conversion. -/
theorem Converter.Converted.preserves
    {coff : List Byte}
    {c : Converter}
    (hConverted : c.Converted coff (coffSections coff))
    (hTiles :
      Tiles ScnHdr.start ScnHdr.length (coffSections coff)
        total)
    (hFits : total + UserStackSize ≤ MemorySize)
    (garbage : NoffHeader)
    (mainMemory : Nat → Byte) :
    Preserves garbage coff
      (List.ofFn (NoffHeader.image c.noffH) ++ c.segments)
      mainMemory := by
  have hHeader :
      (List.ofFn (NoffHeader.image c.noffH)).length =
        NoffHeader.size :=
    List.length_ofFn
  have hSizes := hConverted.sizes
  have hWritten := hConverted.written
  rw [hTiles.sum_size] at hSizes hWritten
  have hNumPages := NoffHeader.numPages_eq hSizes
    (Nat.lt_of_le_of_lt hFits (by decide))
  simp only [MemorySize, NumPhysPages, PageSize, SectorSize,
    UserStackSize] at hFits hNumPages
  have hSmall :
      NoffHeader.size + c.segments.length < 2 ^ 31 := by
    rw [NoffHeader.size]
    omega
  have hInMemory : ∀ s ∈ coffSections coff, s.sSize ≠ 0 →
      s.start + s.length ≤ MemorySize := by
    intro s hs hSize
    have hLe := hTiles.add_le hs (ScnHdr.length_pos hSize)
    simp only [MemorySize, NumPhysPages, PageSize, SectorSize]
    omega
  rcases Executable.readSegment_of_filled hConverted.code
      hHeader hSmall hInMemory
      (fun a =>
        if a < c.noffH.numPages.toNat * PageSize then 0
        else mainMemory a) with
    ⟨withCode, hReadCode, hCode⟩
  rcases Executable.readSegment_of_filled hConverted.initData
      hHeader hSmall hInMemory withCode with
    ⟨memory, hReadData, hData⟩
  have hLoad := AddrSpace.load_eq garbage hConverted.magic
    (by rw [hNumPages, NumPhysPages]; omega) hReadCode hReadData
  refine ⟨c.noffH, _, memory, List.take_left' hHeader, ?_, hLoad,
    Copied.holdsProgram hTiles ?_ hCode hData⟩
  · rw [List.length_append, hHeader]
    exact ⟨hConverted.code.inside, hConverted.initData.inside,
      hConverted.apart⟩
  · intro a ha
    apply if_pos
    rw [hNumPages] at ha ⊢
    rw [toNat_ofInt_natCast (by omega)] at ha
    exact ha

/- Four bytes of text at address zero. -/
def ScnHdr.fourBytes
    (sScnptr : BitVec 32) :
    ScnHdr :=
  ⟨[0x2e, 0x74, 0x65, 0x78, 0x74, 0, 0, 0], 0, 4, sScnptr⟩

/- A file with these four bytes only, at position 116. -/
def fourByteProgram
    (sScnptr : BitVec 32) :
    List Byte :=
  coffFile [ScnHdr.fourBytes sScnptr] [1, 2, 3, 4]

/- The text is followed by four bytes of data. -/
def ScnHdr.textAndData :
    List ScnHdr :=
  [ScnHdr.fourBytes 156,
    ⟨[0x2e, 0x64, 0x61, 0x74, 0x61, 0, 0, 0], 4, 4, 160⟩]

def textAndDataProgram :
    List Byte :=
  coffFile ScnHdr.textAndData [1, 2, 3, 4, 5, 6, 7, 8]

/-
  A program reaches memory unharmed exactly if no section is
  said to be at a negative position of the file.
-/
theorem coff2noff_preserves_iff
    {memory : NoffHeader}
    {coff noff : List Byte}
    {total : Nat}
    (hAccept : coff2noff memory coff = some noff)
    (hText :
      (coffSections coff).countP
        (fun s => s.sSize != 0 && s.isText) ≤ 1)
    (hTiles :
      Tiles ScnHdr.start ScnHdr.length (coffSections coff)
        total)
    (hFits : total + UserStackSize ≤ MemorySize)
    (garbage : NoffHeader)
    (mainMemory : Nat → Byte) :
    Preserves garbage coff noff mainMemory ↔
      ∀ s ∈ coffSections coff, s.sSize ≠ 0 →
        s.isLoaded = true → 0 ≤ s.sScnptr.toInt := by
  constructor
  · intro hPreserves s hs hSize hLoaded
    exact hPreserves.pointer_nonneg hs hSize hLoaded
  · intro hPointers
    have hLayout : Layout (coffSections coff) := by
      refine ⟨hText, ?_, hPointers⟩
      rw [hTiles.sum_size, NoffHeader.size]
      simp only [MemorySize, NumPhysPages, PageSize, SectorSize,
        UserStackSize] at hFits
      omega
    rcases coff2noff_eq_some hAccept with
      ⟨position, c, hFold, rfl⟩
    have hConverted :=
      (Converter.converted_initial coff position
        memory).foldlM hLayout hFold
    exact hConverted.preserves hTiles hFits garbage mainMemory

theorem text_and_data_preserved :
    ∃ noff,
      coff2noff NoffHeader.blank textAndDataProgram =
        some noff ∧
      Preserves NoffHeader.blank textAndDataProgram noff
        (fun _ => 1) := by
  have hSome : (coff2noff NoffHeader.blank
      textAndDataProgram).isSome = true := by
    decide +kernel
  have hSections : coffSections textAndDataProgram =
      ScnHdr.textAndData := by
    decide +kernel
  have hTiles : Tiles ScnHdr.start ScnHdr.length
      (coffSections textAndDataProgram) 8 := by
    rw [hSections]
    exact EndToEnd.tiles ⟨rfl, rfl, trivial⟩
  rcases Option.isSome_iff_exists.mp hSome with ⟨noff, hAccept⟩
  refine ⟨noff, hAccept, ?_⟩
  apply (coff2noff_preserves_iff hAccept
    (by rw [hSections]; decide) hTiles (by decide) _ _).mpr
  rw [hSections]
  decide

/-
  The converter does not notice that it cannot go to a
  negative position, and copies what comes next in the file.
-/
theorem negative_pointer_accepted :
    ∃ noff total,
      coff2noff NoffHeader.blank (fourByteProgram (-1)) =
        some noff ∧
      (coffSections (fourByteProgram (-1))).countP
        (fun s => s.sSize != 0 && s.isText) ≤ 1 ∧
      Tiles ScnHdr.start ScnHdr.length
        (coffSections (fourByteProgram (-1))) total ∧
      total + UserStackSize ≤ MemorySize ∧
      ¬ Preserves NoffHeader.blank (fourByteProgram (-1)) noff
        (fun _ => 1) := by
  have hSome : (coff2noff NoffHeader.blank
      (fourByteProgram (-1))).isSome = true := by
    decide +kernel
  have hSections : coffSections (fourByteProgram (-1)) =
      [ScnHdr.fourBytes (-1)] := by
    decide +kernel
  have hTiles : Tiles ScnHdr.start ScnHdr.length
      (coffSections (fourByteProgram (-1))) 4 := by
    rw [hSections]
    exact EndToEnd.tiles ⟨rfl, trivial⟩
  rcases Option.isSome_iff_exists.mp hSome with ⟨noff, hAccept⟩
  refine ⟨noff, 4, hAccept, by decide +kernel,
    hTiles, by decide, ?_⟩
  intro hPreserves
  have hNonneg := hPreserves.pointer_nonneg
    (by rw [hSections]; exact List.mem_cons_self)
    (by decide) (by decide)
  exact absurd hNonneg (by decide)

end Nachos
