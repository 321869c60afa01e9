import Nachos.Bin.Coff2Noff
import Nachos.Lib.CInt

/-
  The segments of a converted file.

  An invariant of the loop over the sections says which
  section each segment holds, and where it is in the file.

  Main declarations:
    * `Segment.Holds`
    * `Converter.Converted`
    * `coff2noff_eq_some`
    * `Converter.Converted.convert`
    * `Converter.Converted.foldlM`
-/

------------------------------------
-- The Section Table
------------------------------------

namespace Nachos

open Bytes

variable {p n q : Nat}

/- The section headers, as they are in the file. -/
def coffSections
    (coff : List Byte) :
    List ScnHdr :=
  (List.range (shortAt coff 2).toNat).map fun i =>
    ScnHdr.decode coff
      (FileHdrSize + AoutHdrSize + i * ScnHdrSize)

/- A byte of a file, by a signed position. -/
def coffByte
    (coff : List Byte)
    (p : Int) :
    Option Byte :=
  if 0 ≤ p then coff[p.toNat]? else none

theorem InFile.read_eq_some
    {f f' : InFile}
    {n : Nat}
    {buf : List Byte}
    (hRead : f.read n = some (buf, f')) :
    buf = (f.bytes.drop f.position).take n ∧
      buf.length = n ∧ f' = ⟨f.bytes, f.position + n⟩ := by
  unfold InFile.read at hRead
  rw [if_neg (by omega)] at hRead
  dsimp only at hRead
  rw [Int.toNat_natCast] at hRead
  split at hRead
  · rename_i hLength
    cases hRead
    exact ⟨rfl, hLength, rfl⟩
  · cases hRead

/- What is read from a part of a file is in the file. -/
theorem getD_take_drop
    (bytes : List Byte)
    (hq : q < n) :
    ((bytes.drop p).take n).getD q 0 =
      bytes.getD (p + q) 0 := by
  rw [List.getD_eq_getElem?_getD, List.getElem?_take_of_lt hq,
    List.getElem?_drop, List.getD_eq_getElem?_getD]

theorem shortAt_take
    (bytes : List Byte)
    {n q : Nat}
    (hq : q + 2 ≤ n) :
    shortAt (bytes.take n) q = shortAt bytes q := by
  have hLow := getD_take_drop (p := 0) bytes
    (n := n) (q := q) (by omega)
  have hHigh := getD_take_drop (p := 0) bytes
    (n := n) (q := q + 1) (by omega)
  rw [List.drop_zero, Nat.zero_add] at hLow hHigh
  unfold shortAt
  rw [hLow, hHigh]

theorem wordAt_take_drop
    (bytes : List Byte)
    (hq : q + 4 ≤ n) :
    wordAt ((bytes.drop p).take n) q = wordAt bytes (p + q) := by
  unfold wordAt
  congr 1
  funext k
  rw [getD_take_drop bytes (by omega), Nat.add_assoc]

theorem ScnHdr.decode_take_drop
    (bytes : List Byte)
    (hq : q + ScnHdrSize ≤ n) :
    ScnHdr.decode ((bytes.drop p).take n) q =
      ScnHdr.decode bytes (p + q) := by
  simp only [ScnHdrSize] at hq
  have hName : ∀ k ∈ List.range 8,
      ((bytes.drop p).take n).getD (q + k) 0 =
        bytes.getD (p + q + k) 0 := by
    intro k hk
    have hk' := List.mem_range.mp hk
    rw [getD_take_drop bytes (by omega), Nat.add_assoc]
  unfold ScnHdr.decode
  rw [List.map_congr_left hName,
    wordAt_take_drop bytes (by omega),
    wordAt_take_drop bytes (by omega),
    wordAt_take_drop bytes (by omega)]
  simp only [Nat.add_assoc]

/- The section table, read behind the two headers. -/
def readSections
    (coff : List Byte) :
    Option (List ScnHdr × InFile) := do
  let fdIn : InFile := ⟨coff, 0⟩
  let (fileh, fdIn) ← fdIn.read FileHdrSize
  if shortAt fileh 0 = MIPSELMAGIC then
    let (systemh, fdIn) ← fdIn.read AoutHdrSize
    if shortAt systemh 0 = OMAGIC then
      let numsections := (shortAt fileh 2).toNat
      let (table, fdIn) ←
        fdIn.read ((numsections * ScnHdrSize : Nat) : Int)
      some
        ((List.range numsections).map fun i =>
          ScnHdr.decode table (i * ScnHdrSize), fdIn)
    else
      none
  else
    none

/- The variables of the loop before the first round. -/
def Converter.initial
    (memory : NoffHeader)
    (fdIn : InFile) :
    Converter where
  fdIn := fdIn
  noffH := memory.initial
  inNoffFile := BitVec.ofNat 32 NoffHeader.size
  segments := []

/- The output of the converter after the last round. -/
def Converter.output
    (c : Converter) :
    List Byte :=
  List.ofFn (NoffHeader.image c.noffH) ++ c.segments

theorem coff2noff_eq
    (memory : NoffHeader)
    (coff : List Byte) :
    coff2noff memory coff =
      (readSections coff).bind fun r =>
        (r.1.foldlM Converter.convert
          (Converter.initial memory r.2)).map
            Converter.output := by
  unfold coff2noff readSections
  simp only [Option.bind_eq_bind, Option.bind_assoc]
  congr 1
  funext file
  split
  · simp only [Option.bind_assoc]
    congr 1
    funext systemFile
    split
    · simp only [Option.bind_assoc, Option.bind_some,
        Option.map_eq_bind]
      rfl
    · rfl
  · rfl

theorem readSections_eq_some
    {coff : List Byte}
    {sections : List ScnHdr}
    {fdIn : InFile}
    (hRead : readSections coff = some (sections, fdIn)) :
    sections = coffSections coff ∧
      ∃ position, fdIn = ⟨coff, position⟩ := by
  unfold readSections at hRead
  rcases Option.bind_eq_some_iff.mp hRead with
    ⟨⟨fileh, f⟩, hFile, hRead⟩
  rcases InFile.read_eq_some hFile with ⟨rfl, -, rfl⟩
  dsimp only at hRead
  split at hRead
  swap
  · cases hRead
  rcases Option.bind_eq_some_iff.mp hRead with
    ⟨⟨systemh, f⟩, hSystem, hRead⟩
  rcases InFile.read_eq_some hSystem with ⟨rfl, -, rfl⟩
  dsimp only at hRead
  split at hRead
  swap
  · cases hRead
  rcases Option.bind_eq_some_iff.mp hRead with
    ⟨⟨table, f⟩, hTable, hRead⟩
  rcases InFile.read_eq_some hTable with ⟨rfl, -, rfl⟩
  cases hRead
  rw [List.drop_zero]
  have hCount :
      shortAt (coff.take FileHdrSize) 2 = shortAt coff 2 :=
    shortAt_take coff (by simp only [FileHdrSize]; omega)
  have hSections :
      ((List.range (shortAt coff 2).toNat).map fun i =>
        ScnHdr.decode
          ((coff.drop (0 + FileHdrSize + AoutHdrSize)).take
            ((shortAt coff 2).toNat * ScnHdrSize))
          (i * ScnHdrSize)) = coffSections coff := by
    apply List.map_congr_left
    intro i hi
    have hi' := List.mem_range.mp hi
    rw [ScnHdr.decode_take_drop coff, Nat.zero_add]
    calc
      i * ScnHdrSize + ScnHdrSize =
          (i + 1) * ScnHdrSize := (Nat.succ_mul i _).symm
      _ ≤ (shortAt coff 2).toNat * ScnHdrSize :=
        Nat.mul_le_mul_right _ hi'
  rw [hCount]
  exact ⟨hSections, _, rfl⟩

/- What an accepted file goes through. -/
theorem coff2noff_eq_some
    {memory : NoffHeader}
    {coff noff : List Byte}
    (hAccept : coff2noff memory coff = some noff) :
    ∃ position c,
      (coffSections coff).foldlM Converter.convert
          (Converter.initial memory ⟨coff, position⟩) =
        some c ∧
      noff = c.output := by
  rw [coff2noff_eq] at hAccept
  rcases Option.bind_eq_some_iff.mp hAccept with
    ⟨⟨sections, fdIn⟩, hRead, hFold⟩
  rcases readSections_eq_some hRead with ⟨rfl, position, rfl⟩
  rcases Option.map_eq_some_iff.mp hFold with ⟨c, hc, hNoff⟩
  exact ⟨position, c, hc, hNoff.symm⟩

end Nachos

------------------------------------
-- Sections and Segments
------------------------------------

namespace Nachos

open Bytes

namespace ScnHdr

/- The addresses of a section, by the first and how many. -/
def start
    (s : ScnHdr) :
    Nat :=
  s.sPaddr.toNat

def length
    (s : ScnHdr) :
    Nat :=
  s.sSize.toNat

/- The sections that become the code. -/
def isCode
    (s : ScnHdr) :
    Bool :=
  s.sSize != 0 && s.isText

/- The sections that become the initialized data. -/
def isInitData
    (s : ScnHdr) :
    Bool :=
  s.sSize != 0 && !s.isText && s.isData

/- Sections whose bytes are in the file. -/
def isLoaded
    (s : ScnHdr) :
    Bool :=
  s.isText || s.isData

theorem isLoaded_iff
    {s : ScnHdr} :
    s.sSize ≠ 0 ∧ s.isLoaded = true ↔
      s.isCode = true ∨ s.isInitData = true := by
  unfold isLoaded isCode isInitData
  cases s.isText with
  | true => simp
  | false => simp

theorem isInitData_of_isText
    {s : ScnHdr}
    (hText : s.isText = true) :
    s.isInitData = false := by
  rw [isInitData, hText, Bool.not_true, Bool.and_false,
    Bool.false_and]

theorem length_pos
    {s : ScnHdr}
    (hSize : s.sSize ≠ 0) :
    0 < s.length := by
  apply Nat.pos_of_ne_zero
  intro hZero
  exact hSize (BitVec.eq_of_toNat_eq hZero)

end ScnHdr

namespace Segment

/-
  The bytes of a section are at the place of the segment;
  `segments` is the file behind its header.
-/
structure Holds
    (segment : Segment)
    (coff segments : List Byte)
    (s : ScnHdr) : Prop where
  nonempty : s.sSize ≠ 0
  virtualAddr : segment.virtualAddr = s.sPaddr
  size : segment.size = s.sSize
  lower : NoffHeader.size ≤ segment.inFileAddr.toNat
  upper :
    segment.inFileAddr.toNat + s.length ≤
      NoffHeader.size + segments.length
  bytes :
    ∀ i, i < s.length →
      segments[segment.inFileAddr.toNat -
          NoffHeader.size + i]? =
        coffByte coff (s.sScnptr.toInt + i)

/-
  The segment holds the only section of its kind, or is empty
  if there is none.
-/
def Filled
    (segment : Segment)
    (coff segments : List Byte)
    (kind : ScnHdr → Bool)
    (sections : List ScnHdr) : Prop :=
  (segment.size = 0 ∧ ∀ t ∈ sections, kind t = false) ∨
    ∃ s ∈ sections, kind s = true ∧
      segment.Holds coff segments s ∧
      ∀ t ∈ sections, kind t = true → t = s

/- Segments that are not empty do not overlap. -/
def Apart
    (a b : Segment) : Prop :=
  a.size ≠ 0 → b.size ≠ 0 →
    a.inFileAddr.toNat + a.size.toNat ≤ b.inFileAddr.toNat ∨
      b.inFileAddr.toNat + b.size.toNat ≤ a.inFileAddr.toNat

theorem Apart.symm
    {a b : Segment}
    (hApart : a.Apart b) :
    b.Apart a :=
  fun hb ha => (hApart ha hb).symm

variable {segment : Segment}
variable {coff segments : List Byte}
variable {kind : ScnHdr → Bool}
variable {sections : List ScnHdr}
variable {s : ScnHdr}

/- What is written behind the segment does not matter. -/
theorem Holds.append
    (hHolds : segment.Holds coff segments s)
    (more : List Byte) :
    segment.Holds coff (segments ++ more) s := by
  have hLower := hHolds.lower
  have hUpper := hHolds.upper
  refine
    { hHolds with
      upper := ?_
      bytes := ?_ }
  · rw [List.length_append]
    omega
  · intro i hi
    rw [List.getElem?_append_left (by omega)]
    exact hHolds.bytes i hi

/- A section of another kind does not matter. -/
theorem Filled.skip
    (hFilled : segment.Filled coff segments kind sections)
    (more : List Byte)
    (hKind : kind s = false) :
    segment.Filled coff (segments ++ more) kind
      (sections ++ [s]) := by
  rcases hFilled with ⟨hSize, hNone⟩ | ⟨t, ht, hIs, hHolds, hOnly⟩
  · refine Or.inl ⟨hSize, ?_⟩
    intro u hu
    rcases List.mem_append.mp hu with hu | hu
    · exact hNone u hu
    · rw [List.mem_singleton.mp hu]
      exact hKind
  · refine Or.inr ⟨t, List.mem_append_left _ ht, hIs,
      hHolds.append more, ?_⟩
    intro u hu hIs'
    rcases List.mem_append.mp hu with hu | hu
    · exact hOnly u hu hIs'
    · rw [List.mem_singleton.mp hu, hKind] at hIs'
      cases hIs'

/- The first section of its kind fills the segment. -/
theorem Filled.fill
    (hNone : ∀ t ∈ sections, kind t = false)
    (hKind : kind s = true)
    (hHolds : segment.Holds coff segments s) :
    segment.Filled coff segments kind (sections ++ [s]) := by
  refine Or.inr ⟨s, ?_, hKind, hHolds, ?_⟩
  · exact List.mem_append_right _ List.mem_cons_self
  · intro t ht hIs
    rcases List.mem_append.mp ht with ht | ht
    · rw [hNone t ht] at hIs
      cases hIs
    · exact List.mem_singleton.mp ht

theorem Filled.none_of_size
    (hFilled : segment.Filled coff segments kind sections)
    (hSize : segment.size = 0) :
    ∀ t ∈ sections, kind t = false := by
  rcases hFilled with ⟨-, hNone⟩ | ⟨t, -, -, hHolds, -⟩
  · exact hNone
  · exact absurd (hHolds.size.symm.trans hSize) hHolds.nonempty

theorem Filled.size_of_none
    (hFilled : segment.Filled coff segments kind sections)
    (hNone : ∀ t ∈ sections, kind t = false) :
    segment.size = 0 := by
  rcases hFilled with ⟨hSize, -⟩ | ⟨t, ht, hIs, -, -⟩
  · exact hSize
  · rw [hNone t ht] at hIs
    cases hIs

theorem Filled.inside
    (hFilled : segment.Filled coff segments kind sections)
    (hSize : segment.size ≠ 0) :
    NoffHeader.size ≤ segment.inFileAddr.toNat ∧
      segment.inFileAddr.toNat + segment.size.toNat ≤
        NoffHeader.size + segments.length := by
  rcases hFilled with ⟨hZero, -⟩ | ⟨t, -, -, hHolds, -⟩
  · exact absurd hZero hSize
  · rw [hHolds.size]
    exact ⟨hHolds.lower, hHolds.upper⟩

end Segment

end Nachos

------------------------------------
-- The Loop over the Sections
------------------------------------

namespace Nachos

open Bytes CInt

/- What is assumed of the section headers of a file. -/
structure Layout
    (sections : List ScnHdr) : Prop where
  text : sections.countP ScnHdr.isCode ≤ 1
  small :
    NoffHeader.size + (sections.map ScnHdr.length).sum < 2 ^ 31
  pointers :
    ∀ s ∈ sections, s.sSize ≠ 0 → s.isLoaded = true →
      0 ≤ s.sScnptr.toInt

theorem Layout.of_append
    {sections more : List ScnHdr}
    (hLayout : Layout (sections ++ more)) :
    Layout sections where
  text := by
    have hText := hLayout.text
    rw [List.countP_append] at hText
    omega
  small := by
    have hSmall := hLayout.small
    rw [List.map_append, List.sum_append] at hSmall
    omega
  pointers := fun s hs =>
    hLayout.pointers s (List.mem_append_left more hs)

namespace Converter

/-
  What the converter has reached when the sections of a list
  are done.
-/
structure Converted
    (coff : List Byte)
    (done : List ScnHdr)
    (c : Converter) : Prop where
  source : c.fdIn.bytes = coff
  magic : c.noffH.noffMagic = NOFFMAGIC
  position :
    c.inNoffFile =
      BitVec.ofNat 32 (NoffHeader.size + c.segments.length)
  written :
    c.segments.length ≤ (done.map ScnHdr.length).sum
  code :
    c.noffH.code.Filled coff c.segments ScnHdr.isCode done
  initData :
    c.noffH.initData.Filled coff c.segments
      ScnHdr.isInitData done
  sizes :
    c.noffH.code.size.toNat + c.noffH.initData.size.toNat +
        c.noffH.uninitData.size.toNat =
      (done.map ScnHdr.length).sum
  apart : c.noffH.code.Apart c.noffH.initData

theorem converted_initial
    (coff : List Byte)
    (position : Nat)
    (memory : NoffHeader) :
    Converted coff []
      { fdIn := ⟨coff, position⟩
        noffH := memory.initial
        inNoffFile := BitVec.ofNat 32 NoffHeader.size
        segments := [] } where
  source := rfl
  magic := rfl
  position := rfl
  written := Nat.zero_le _
  code := Or.inl ⟨rfl, fun _ ht => nomatch ht⟩
  initData := Or.inl ⟨rfl, fun _ ht => nomatch ht⟩
  sizes := rfl
  apart := fun hCode => absurd rfl hCode

variable {coff : List Byte}
variable {done : List ScnHdr}
variable {c c' : Converter}
variable {s : ScnHdr}

/- Copying a section appends its bytes. -/
theorem copySection_eq_some
    (hPointer : 0 ≤ s.sScnptr.toInt)
    (hSize : s.length < 2 ^ 31)
    (hCopy : c.copySection s = some c') :
    ∃ position buffer,
      c' =
        { c with
          fdIn := ⟨c.fdIn.bytes, position⟩
          segments := c.segments ++ buffer
          inNoffFile := c.inNoffFile + s.sSize } ∧
      buffer.length = s.length ∧
      ∀ i, i < s.length →
        buffer[i]? =
          coffByte c.fdIn.bytes (s.sScnptr.toInt + i) := by
  have hToInt : s.sSize.toInt = s.length :=
    toInt_eq_toNat hSize
  unfold copySection at hCopy
  rcases Option.bind_eq_some_iff.mp hCopy with
    ⟨⟨buffer, fdIn⟩, hRead, hResult⟩
  rw [hToInt, InFile.lseek, if_pos hPointer] at hRead
  rcases InFile.read_eq_some hRead with ⟨hBuffer, hLength, rfl⟩
  dsimp only at hBuffer
  cases hResult
  refine ⟨_, buffer, rfl, hLength, ?_⟩
  intro i hi
  rw [hBuffer, List.getElem?_take_of_lt hi, List.getElem?_drop,
    coffByte, if_pos (by omega)]
  congr 1
  omega

theorem Converted.toNat_inNoffFile
    (hConverted : Converted coff done c)
    (hLayout : Layout (done ++ [s])) :
    c.inNoffFile.toNat =
      NoffHeader.size + c.segments.length := by
  have hSmall := hLayout.of_append.small
  have hWritten := hConverted.written
  rw [hConverted.position, BitVec.toNat_ofNat,
    Nat.mod_eq_of_lt (by omega)]

theorem sum_concat
    (done : List ScnHdr)
    (s : ScnHdr) :
    ((done ++ [s]).map ScnHdr.length).sum =
      (done.map ScnHdr.length).sum + s.length := by
  rw [List.map_append, List.sum_append, List.map_singleton,
    List.sum_singleton]

/- The new segment holds the section that was copied. -/
theorem Converted.copied
    (hConverted : Converted coff done c)
    (hLayout : Layout (done ++ [s]))
    (hSize : s.sSize ≠ 0)
    (hLoaded : s.isLoaded = true)
    {noffH : NoffHeader}
    (hCopy :
      copySection { c with noffH := noffH } s = some c') :
    ∃ position buffer,
      c' =
        { fdIn := ⟨coff, position⟩
          noffH := noffH
          segments := c.segments ++ buffer
          inNoffFile :=
            BitVec.ofNat 32 (NoffHeader.size +
              (c.segments ++ buffer).length) } ∧
      buffer.length = s.length ∧
      (c.segment s).Holds coff (c.segments ++ buffer) s := by
  have hPointer := hLayout.pointers s
    (List.mem_append_right done List.mem_cons_self)
    hSize hLoaded
  have hSmall := hLayout.small
  rw [sum_concat] at hSmall
  have hAddr : (c.segment s).inFileAddr.toNat =
      NoffHeader.size + c.segments.length :=
    hConverted.toNat_inNoffFile hLayout
  rcases copySection_eq_some hPointer (by omega) hCopy with
    ⟨position, buffer, rfl, hLength, hBytes⟩
  rw [hConverted.source] at hBytes
  have hNext : c.inNoffFile + s.sSize =
      BitVec.ofNat 32 (NoffHeader.size +
        (c.segments ++ buffer).length) := by
    rw [List.length_append, hLength, ← Nat.add_assoc,
      ScnHdr.length, BitVec.ofNat_add (y := s.sSize.toNat),
      BitVec.ofNat_toNat, BitVec.setWidth_eq,
      hConverted.position]
  refine ⟨position, buffer, ?_, hLength, ?_⟩
  · rw [hConverted.source, hNext]
  · refine ⟨hSize, rfl, rfl, by omega, ?_, ?_⟩
    · rw [hAddr, List.length_append]
      omega
    · intro i hi
      rw [hAddr, List.getElem?_append_right (by omega)]
      have hIndex : NoffHeader.size + c.segments.length -
          NoffHeader.size + i - c.segments.length = i := by
        omega
      rw [hIndex]
      exact hBytes i hi

/- The new segment is behind all that was written before. -/
theorem Converted.apart_segment
    (hConverted : Converted coff done c)
    (hLayout : Layout (done ++ [s]))
    {segment : Segment}
    {kind : ScnHdr → Bool}
    (hFilled : segment.Filled coff c.segments kind done) :
    segment.Apart (c.segment s) := by
  intro hSize _
  have hInside := hFilled.inside hSize
  exact Or.inl (hInside.2.trans
    (hConverted.toNat_inNoffFile hLayout).ge)

/-
  The header and the bytes of the section are added; the
  header is what the two kinds of sections differ in.
-/
theorem Converted.extend
    (hConverted : Converted coff done c)
    {position : Nat}
    {buffer : List Byte}
    {noffH : NoffHeader}
    (hLength : buffer.length = s.length)
    (hMagic : noffH.noffMagic = c.noffH.noffMagic)
    (hCode :
      noffH.code.Filled coff (c.segments ++ buffer)
        ScnHdr.isCode (done ++ [s]))
    (hInitData :
      noffH.initData.Filled coff (c.segments ++ buffer)
        ScnHdr.isInitData (done ++ [s]))
    (hSizes :
      noffH.code.size.toNat + noffH.initData.size.toNat +
          noffH.uninitData.size.toNat =
        c.noffH.code.size.toNat +
          c.noffH.initData.size.toNat +
          c.noffH.uninitData.size.toNat + s.length)
    (hApart : noffH.code.Apart noffH.initData) :
    Converted coff (done ++ [s])
      { fdIn := ⟨coff, position⟩
        noffH := noffH
        segments := c.segments ++ buffer
        inNoffFile :=
          BitVec.ofNat 32 (NoffHeader.size +
            (c.segments ++ buffer).length) } where
  source := rfl
  magic := hMagic.trans hConverted.magic
  position := rfl
  written := by
    rw [List.length_append, sum_concat, hLength]
    exact Nat.add_le_add_right hConverted.written _
  code := hCode
  initData := hInitData
  sizes := by
    rw [sum_concat, ← hConverted.sizes]
    exact hSizes
  apart := hApart

theorem Converted.convertText
    (hConverted : Converted coff done c)
    (hLayout : Layout (done ++ [s]))
    (hSize : s.sSize ≠ 0)
    (hText : s.isText = true)
    (hConvert : c.convertText s = some c') :
    Converted coff (done ++ [s]) c' := by
  have hCode : s.isCode = true := by
    rw [ScnHdr.isCode, hText, Bool.and_true]
    exact bne_iff_ne.mpr hSize
  have hInitData := ScnHdr.isInitData_of_isText hText
  have hLoaded := (ScnHdr.isLoaded_iff.mpr (Or.inl hCode)).2
  -- there is at most one section of this kind
  have hNone : ∀ t ∈ done, t.isCode = false := by
    have hCount := hLayout.text
    rw [List.countP_append, List.countP_singleton,
      if_pos hCode] at hCount
    have hZero : done.countP ScnHdr.isCode = 0 := by
      omega
    intro t ht
    exact Bool.eq_false_iff.mpr
      (List.countP_eq_zero.mp hZero t ht)
  have hEmpty := hConverted.code.size_of_none hNone
  rcases hConverted.copied hLayout hSize hLoaded hConvert with
    ⟨position, buffer, rfl, hLength, hHolds⟩
  apply hConverted.extend hLength
  · rfl
  · exact Segment.Filled.fill hNone hCode hHolds
  · exact hConverted.initData.skip buffer hInitData
  · rw [hEmpty]
    change s.length + c.noffH.initData.size.toNat +
        c.noffH.uninitData.size.toNat =
      0 + c.noffH.initData.size.toNat +
        c.noffH.uninitData.size.toNat + s.length
    omega
  · exact (hConverted.apart_segment hLayout
      hConverted.initData).symm

theorem Converted.convertData
    (hConverted : Converted coff done c)
    (hLayout : Layout (done ++ [s]))
    (hSize : s.sSize ≠ 0)
    (hText : s.isText = false)
    (hData : s.isData = true)
    (hConvert : c.convertData s = some c') :
    Converted coff (done ++ [s]) c' := by
  have hCode : s.isCode = false := by
    rw [ScnHdr.isCode, hText, Bool.and_false]
  have hInitData : s.isInitData = true := by
    rw [ScnHdr.isInitData, hText, hData, Bool.not_false,
      Bool.and_true, Bool.and_true]
    exact bne_iff_ne.mpr hSize
  have hLoaded := (ScnHdr.isLoaded_iff.mpr (Or.inr hInitData)).2
  unfold Converter.convertData at hConvert
  split at hConvert
  · cases hConvert
  rename_i hSecond
  have hEmpty := not_not.mp hSecond
  have hNone := hConverted.initData.none_of_size hEmpty
  rcases hConverted.copied hLayout hSize hLoaded hConvert with
    ⟨position, buffer, rfl, hLength, hHolds⟩
  apply hConverted.extend hLength
  · rfl
  · exact hConverted.code.skip buffer hCode
  · exact Segment.Filled.fill hNone hInitData hHolds
  · rw [hEmpty]
    change c.noffH.code.size.toNat + s.length +
        c.noffH.uninitData.size.toNat =
      c.noffH.code.size.toNat + 0 +
        c.noffH.uninitData.size.toNat + s.length
    omega
  · exact hConverted.apart_segment hLayout hConverted.code

/- Nothing is copied, but the address space may grow. -/
theorem Converted.skip
    (hConverted : Converted coff done c)
    (hCode : s.isCode = false)
    (hInitData : s.isInitData = false)
    {uninitData : Segment}
    (hSize :
      uninitData.size.toNat =
        c.noffH.uninitData.size.toNat + s.length) :
    Converted coff (done ++ [s])
      { c with
        noffH :=
          { c.noffH with uninitData := uninitData } } := by
  have hWritten := hConverted.written
  have hSizes := hConverted.sizes
  exact
    { source := hConverted.source
      magic := hConverted.magic
      position := hConverted.position
      written := by
        rw [sum_concat]
        exact hWritten.trans (Nat.le_add_right _ _)
      code := by
        have hSkip := hConverted.code.skip [] hCode
        rw [List.append_nil] at hSkip
        exact hSkip
      initData := by
        have hSkip := hConverted.initData.skip [] hInitData
        rw [List.append_nil] at hSkip
        exact hSkip
      sizes := by
        rw [sum_concat, ← hSizes, hSize]
        exact (Nat.add_assoc _ _ _).symm
      apart := hConverted.apart }

theorem Converted.convertBss
    (hConverted : Converted coff done c)
    (hLayout : Layout (done ++ [s]))
    (hCode : s.isCode = false)
    (hInitData : s.isInitData = false)
    (hConvert : c.convertBss s = some c') :
    Converted coff (done ++ [s]) c' := by
  have hSmall := hLayout.small
  have hSizes := hConverted.sizes
  rw [sum_concat, ← hSizes] at hSmall
  unfold Converter.convertBss at hConvert
  dsimp only at hConvert
  split at hConvert
  · split at hConvert
    · cases hConvert
    · cases hConvert
      apply hConverted.skip hCode hInitData
      rw [BitVec.toNat_add]
      apply Nat.mod_eq_of_lt
      unfold ScnHdr.length at hSmall
      omega
  · rename_i hFirst
    cases hConvert
    apply hConverted.skip hCode hInitData
    rw [not_not.mp hFirst]
    exact (Nat.zero_add _).symm

/- One round of the loop. -/
theorem Converted.convert
    (hConverted : Converted coff done c)
    (hLayout : Layout (done ++ [s]))
    (hConvert : c.convert s = some c') :
    Converted coff (done ++ [s]) c' := by
  unfold Converter.convert at hConvert
  split at hConvert
  · rename_i hSize
    cases hConvert
    have hNonempty : (s.sSize != 0) = false := by
      rw [hSize]
      rfl
    have hCode : s.isCode = false := by
      rw [ScnHdr.isCode, hNonempty, Bool.false_and]
    have hInitData : s.isInitData = false := by
      rw [ScnHdr.isInitData, hNonempty, Bool.false_and,
        Bool.false_and]
    apply hConverted.skip hCode hInitData
    rw [ScnHdr.length, hSize]
    rfl
  rename_i hSize
  split at hConvert
  · rename_i hText
    exact hConverted.convertText hLayout hSize hText hConvert
  rename_i hText
  have hText' := Bool.eq_false_iff.mpr hText
  have hCode : s.isCode = false := by
    rw [ScnHdr.isCode, hText', Bool.and_false]
  split at hConvert
  · rename_i hData
    exact hConverted.convertData hLayout hSize hText' hData
      hConvert
  rename_i hData
  have hInitData : s.isInitData = false := by
    rw [ScnHdr.isInitData, Bool.eq_false_iff.mpr hData,
      Bool.and_false]
  split at hConvert
  · exact hConverted.convertBss hLayout hCode hInitData hConvert
  · cases hConvert

/- The whole loop. -/
theorem Converted.foldlM
    {rest : List ScnHdr}
    (hConverted : Converted coff done c)
    (hLayout : Layout (done ++ rest))
    (hFold : rest.foldlM Converter.convert c = some c') :
    Converted coff (done ++ rest) c' := by
  induction rest generalizing done c with
  | nil =>
      rw [List.foldlM_nil] at hFold
      cases hFold
      rw [List.append_nil]
      exact hConverted
  | cons s rest ih =>
      have hSplit : done ++ s :: rest = (done ++ [s]) ++ rest :=
        List.append_cons done s rest
      rw [hSplit] at hLayout ⊢
      rw [List.foldlM_cons] at hFold
      rcases Option.bind_eq_some_iff.mp hFold with
        ⟨next, hConvert, hRest⟩
      have hNext := hConverted.convert hLayout.of_append hConvert
      exact ih hNext hLayout hRest

end Converter

end Nachos

------------------------------------
-- Small Programs
------------------------------------

namespace Nachos

open Bytes

/- The forty bytes of a section header. -/
def ScnHdr.bytes
    (s : ScnHdr) :
    List Byte :=
  s.sName ++ List.ofFn (wordImage s.sPaddr) ++
    List.replicate 4 0 ++ List.ofFn (wordImage s.sSize) ++
    List.ofFn (wordImage s.sScnptr) ++ List.replicate 16 0

/- A file with these sections and bytes. -/
def coffFile
    (sections : List ScnHdr)
    (contents : List Byte) :
    List Byte :=
  [0x62, 0x01, BitVec.ofNat 8 sections.length, 0] ++
    List.replicate 16 0 ++ [0x07, 0x01] ++
    List.replicate 54 0 ++ sections.flatMap ScnHdr.bytes ++
    contents

end Nachos
