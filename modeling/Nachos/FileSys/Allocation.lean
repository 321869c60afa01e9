import Nachos.FileSys.FileHeader

/-
  Allocation takes the first free sectors of the map, and
  deallocation gives back exactly the sectors of a header.
  The size of a file is not checked against the limit.

  Main declarations:
    * `FileHeader.deallocate_spec`
    * `FileHeader.allocatesSoundly_iff`
    * `FileHeader.bad_sizes_pass`
    * `BitMap.ext_bit`
    * `FileHeader.allocate_exact`
-/

------------------------------------
-- Taking Sectors
------------------------------------

namespace Nachos

open CInt

namespace FileHeader

variable {size : Nat}

/- The loop moves the first free bits into the table. -/
theorem allocateLoop_spec
    (hdr : FileHeader)
    (freeMap : BitMap NumSectors)
    {n : Nat}
    (hDirect : n ≤ NumDirect)
    (hFree : n ≤ freeMap.freeBits.length) :
    ∃ hdr' freeMap',
      allocateLoop hdr freeMap n = some (hdr', freeMap') ∧
      hdr'.numBytes = hdr.numBytes ∧
      hdr'.numSectors = hdr.numSectors ∧
      (List.range n).map hdr'.sectorAt =
        (freeMap.freeBits.take n).map Fin.val ∧
      freeMap'.freeBits = freeMap.freeBits.drop n ∧
      ∀ j,
        freeMap'.bit j =
          (decide (j ∈ freeMap.freeBits.take n) ||
            freeMap.bit j) := by
  induction n with
  | zero =>
      refine ⟨hdr, freeMap, rfl, rfl, rfl, rfl, rfl, ?_⟩
      simp
  | succ n ih =>
      rcases ih (by omega) (by omega) with
        ⟨hdr', freeMap', hRun, hBytes, hSectors, hTable,
          hRest, hBits⟩
      have hn : n < NumDirect := by
        omega
      have hLt : n < freeMap.freeBits.length := by
        omega
      have hNext : freeMap'.freeBits =
          freeMap.freeBits[n] ::
            freeMap.freeBits.drop (n + 1) := by
        rw [hRest, List.drop_eq_getElem_cons hLt]
      refine
        ⟨{ hdr' with
            dataSectors :=
              Function.update hdr'.dataSectors ⟨n, hn⟩
                (BitVec.ofInt 32
                  (freeMap.freeBits[n].1 : Int)) },
          freeMap'.setBit freeMap.freeBits[n], by
        simp only [allocateLoop, hRun,
          BitMap.find_of_freeBits_eq_cons hNext, hn,
          dif_pos, Option.bind_eq_bind, Option.bind_some],
        hBytes, hSectors, ?_,
        BitMap.freeBits_setBit hNext, ?_⟩
      · rw [List.range_succ, List.map_append,
          List.take_succ_eq_append_getElem hLt,
          List.map_append, ← hTable]
        refine congrArg₂ (· ++ ·) ?_ ?_
        · -- earlier places keep their sector
          apply List.map_congr_left
          intro i hi
          have hi' : i < n := List.mem_range.mp hi
          have hDirect' : i < NumDirect := by
            omega
          have hNe : (⟨i, hDirect'⟩ : Fin NumDirect) ≠
              ⟨n, hn⟩ := by
            intro hEq
            exact Nat.ne_of_lt hi' (congrArg Fin.val hEq)
          simp only [sectorAt, hDirect', dif_pos,
            Function.update_of_ne hNe]
        · have hBound := freeMap.freeBits[n].2
          simp only [NumSectors, SectorsPerTrack, NumTracks]
            at hBound
          simp only [List.map_cons, List.map_nil, sectorAt,
            hn, dif_pos, Function.update_self]
          rw [toNat_ofInt_natCast (by omega)]
      · intro j
        rw [BitMap.bit_setBit, hBits,
          List.take_succ_eq_append_getElem hLt,
          ← Bool.or_assoc]
        refine congrArg (· || freeMap.bit j) ?_
        rw [Bool.eq_iff_iff]
        simp only [Bool.or_eq_true, decide_eq_true_eq,
          List.mem_append, List.mem_singleton]
        constructor
        · rintro (hEq | hMem)
          · exact Or.inr hEq.symm
          · exact Or.inl hMem
        · rintro (hMem | hEq)
          · exact Or.inr hMem
          · exact Or.inl hEq.symm

/- Sectors that a file of a given size needs. -/
def sectorsFor
    (size : Nat) :
    Nat :=
  (size + (SectorSize - 1)) / SectorSize

theorem sectorsFor_le
    (hSize : size ≤ MaxFileSize) :
    sectorsFor size ≤ NumDirect := by
  simp only [MaxFileSize, NumDirect, SectorSize, sectorsFor]
    at hSize ⊢
  omega

theorem WellFormed.length_sectors
    {hdr : FileHeader}
    (hWf : hdr.WellFormed) :
    hdr.sectors.length = sectorsFor hdr.length := by
  rw [sectors, List.length_map, List.length_range,
    hWf.numSectors_eq]
  rfl

/- Without enough free sectors the map is not changed. -/
theorem allocate_of_lt
    (hdr : FileHeader)
    {freeMap : BitMap NumSectors}
    (hLt : freeMap.freeBits.length < sectorsFor size) :
    ∃ hdr',
      allocate hdr freeMap size =
        some (false, hdr', freeMap) := by
  have hCeil : divRoundUp (size : Int) SectorSize =
      (sectorsFor size : Nat) :=
    divRoundUp_natCast size (by decide)
  refine ⟨_, by
    unfold allocate
    rw [hCeil, freeMap.numClear_eq, if_pos (by omega)]⟩

/-
  With enough free sectors the header gets the first of them
  and just these become used.
-/
theorem allocate_spec
    (hdr : FileHeader)
    {freeMap : BitMap NumSectors}
    (hSize : size ≤ MaxFileSize)
    (hFree : sectorsFor size ≤ freeMap.freeBits.length) :
    ∃ hdr' freeMap',
      allocate hdr freeMap size =
        some (true, hdr', freeMap') ∧
      hdr'.WellFormed ∧
      hdr'.length = size ∧
      hdr'.sectors =
        (freeMap.freeBits.take (sectorsFor size)).map
          Fin.val ∧
      ∀ j,
        freeMap'.bit j =
          (decide (j.1 ∈ hdr'.sectors) ||
            freeMap.bit j) := by
  have hCeil : divRoundUp (size : Int) SectorSize =
      (sectorsFor size : Nat) :=
    divRoundUp_natCast size (by decide)
  have hDirect := sectorsFor_le hSize
  rcases allocateLoop_spec
      { hdr with
        numBytes := BitVec.ofInt 32 size
        numSectors := BitVec.ofInt 32 (sectorsFor size) }
      freeMap hDirect hFree with
    ⟨hdr', freeMap', hRun, hBytes, hCount, hTable, _,
      hBits⟩
  have hLength : hdr'.length = size := by
    simp only [MaxFileSize, NumDirect, SectorSize] at hSize
    rw [length, hBytes]
    exact toNat_ofInt_natCast (by omega)
  have hNum : hdr'.numSectors.toNat = sectorsFor size := by
    simp only [NumDirect, SectorSize] at hDirect
    rw [hCount]
    exact toNat_ofInt_natCast (by omega)
  have hSectors : hdr'.sectors =
      (freeMap.freeBits.take (sectorsFor size)).map
        Fin.val := by
    rw [sectors, hNum, hTable]
  refine ⟨hdr', freeMap', ?_, ⟨?_, ?_, ?_⟩, hLength,
    hSectors, ?_⟩
  · unfold allocate
    rw [hCeil, freeMap.numClear_eq, if_neg (by omega)]
    simp only [Int.toNat_natCast, hRun, Option.bind_eq_bind,
      Option.bind_some]
  · rw [hLength]
    exact hSize
  · rw [hNum, hLength]
    rfl
  · intro i hi
    have hMem := hdr'.sectorAt_mem_sectors hi
    rw [hSectors] at hMem
    rcases List.mem_map.mp hMem with ⟨s, _, hs⟩
    rw [← hs]
    exact s.2
  · intro j
    rw [hBits, hSectors]
    refine congrArg (· || freeMap.bit j) ?_
    rw [decide_eq_decide]
    constructor
    · intro hMem
      exact List.mem_map_of_mem hMem
    · intro hMem
      rcases List.mem_map.mp hMem with ⟨s, hs, hEq⟩
      rwa [← Fin.ext hEq]

/- The loop leaves the rest of the table alone. -/
theorem allocateLoop_unused
    {hdr hdr' : FileHeader}
    {freeMap freeMap' : BitMap NumSectors}
    {n : Nat}
    (hRun :
      allocateLoop hdr freeMap n = some (hdr', freeMap'))
    {j : Fin NumDirect}
    (hj : n ≤ j) :
    hdr'.dataSectors j = hdr.dataSectors j := by
  induction n generalizing hdr' freeMap' with
  | zero =>
      cases hRun
      rfl
  | succ n ih =>
      rw [allocateLoop] at hRun
      rcases Option.bind_eq_some_iff.mp hRun with
        ⟨⟨hdr₁, freeMap₁⟩, hLoop, hNext⟩
      have hOld := ih hLoop (by omega)
      have hn : n < NumDirect := by
        have hLt := j.2
        omega
      have hNe : j ≠ ⟨n, hn⟩ := by
        intro hEq
        have hVal := congrArg Fin.val hEq
        dsimp only at hVal
        omega
      simp only [hn, dif_pos] at hNext
      cases hNext
      dsimp only
      rw [Function.update_of_ne hNe, hOld]

/- Unused entries of a new header hold what they held. -/
theorem allocate_unused
    {hdr hdr' : FileHeader}
    {freeMap freeMap' : BitMap NumSectors}
    (hRun :
      allocate hdr freeMap size =
        some (true, hdr', freeMap'))
    {j : Fin NumDirect}
    (hj : sectorsFor size ≤ j) :
    hdr'.dataSectors j = hdr.dataSectors j := by
  have hCeil : divRoundUp (size : Int) SectorSize =
      (sectorsFor size : Nat) :=
    divRoundUp_natCast size (by decide)
  unfold allocate at hRun
  rw [hCeil] at hRun
  dsimp only at hRun
  split at hRun
  · cases hRun
  · rcases Option.bind_eq_some_iff.mp hRun with
      ⟨⟨hdr₁, freeMap₁⟩, hLoop, hNext⟩
    cases hNext
    rw [Int.toNat_natCast] at hLoop
    exact allocateLoop_unused hLoop hj

end FileHeader

end Nachos

------------------------------------
-- Giving Sectors Back
------------------------------------

namespace Nachos

open CInt

namespace FileHeader

variable {hdr : FileHeader}

/- One round of the loop clears a bit that is set. -/
theorem deallocateLoop_succ
    (hWf : hdr.WellFormed)
    {freeMap freeMap' : BitMap NumSectors}
    {n : Nat}
    (hn : n < hdr.numSectors.toNat)
    (hRun : deallocateLoop hdr freeMap n = some freeMap')
    (hSet :
      freeMap'.bit ⟨hdr.sectorAt n, hWf.sector_lt n hn⟩ =
        true) :
    deallocateLoop hdr freeMap (n + 1) =
      some (freeMap'.clearBit
        ⟨hdr.sectorAt n, hWf.sector_lt n hn⟩) := by
  have hDirect := hWf.numSectors_le
  have hLt : n < NumDirect := by
    omega
  have hSector := hWf.sector_lt n hn
  have hValue :
      (hdr.dataSectors ⟨n, hLt⟩).toInt =
        (hdr.sectorAt n : Int) := by
    have hEq : (hdr.dataSectors ⟨n, hLt⟩).toNat =
        hdr.sectorAt n := by
      simp [sectorAt, hLt]
    simp only [NumSectors, SectorsPerTrack, NumTracks]
      at hSector
    rw [toInt_eq_toNat (by omega), hEq]
  have hRange : (0 : Int) ≤ (hdr.sectorAt n : Int) ∧
      (hdr.sectorAt n : Int) < NumSectors := by
    omega
  simp only [deallocateLoop, hRun, hLt, dif_pos, hValue,
    BitMap.test, BitMap.clear, hRange, and_self,
    Int.toNat_natCast, hSet, Option.bind_eq_bind,
    Option.bind_some, if_true]

theorem deallocateLoop_spec
    (hWf : hdr.WellFormed)
    (hNodup : hdr.sectors.Nodup)
    {freeMap : BitMap NumSectors}
    (hMarked : ∀ j, j.1 ∈ hdr.sectors → freeMap.bit j = true)
    {n : Nat}
    (hn : n ≤ hdr.numSectors.toNat) :
    ∃ freeMap',
      deallocateLoop hdr freeMap n = some freeMap' ∧
      ∀ j,
        freeMap'.bit j =
          (!decide (j.1 ∈ (List.range n).map hdr.sectorAt) &&
            freeMap.bit j) := by
  induction n with
  | zero =>
      refine ⟨freeMap, rfl, ?_⟩
      simp
  | succ n ih =>
      rcases ih (by omega) with ⟨freeMap', hRun, hBits⟩
      have hIn : n < hdr.numSectors.toNat := by
        omega
      have hSector := hWf.sector_lt n hIn
      -- the sector has not been freed in an earlier round
      have hSet : freeMap'.bit ⟨hdr.sectorAt n, hSector⟩ =
          true := by
        rw [hBits, hMarked _ (hdr.sectorAt_mem_sectors hIn)]
        simp only [Bool.and_true, Bool.not_eq_true',
          decide_eq_false_iff_not, List.mem_map,
          List.mem_range, not_exists, not_and]
        intro i hi
        exact sectorAt_ne hNodup (by omega) hIn (by omega)
      refine ⟨freeMap'.clearBit ⟨hdr.sectorAt n, hSector⟩,
        deallocateLoop_succ hWf hIn hRun hSet, ?_⟩
      intro j
      rw [BitMap.bit_clearBit, hBits, List.range_succ,
        List.map_append, ← Bool.and_assoc]
      refine congrArg (· && freeMap.bit j) ?_
      rw [Bool.eq_iff_iff]
      simp only [Bool.and_eq_true, Bool.not_eq_true',
        decide_eq_false_iff_not, List.mem_append,
        List.map_cons, List.map_nil, List.mem_singleton,
        not_or, Fin.ext_iff]
      constructor
      · rintro ⟨hNe, hOld⟩
        exact ⟨hOld, Ne.symm hNe⟩
      · rintro ⟨hOld, hNe⟩
        exact ⟨Ne.symm hNe, hOld⟩

/-
  Freeing a well-formed header whose sectors are marked never
  fails and clears just these sectors.
-/
theorem deallocate_spec
    (hWf : hdr.WellFormed)
    (hNodup : hdr.sectors.Nodup)
    {freeMap : BitMap NumSectors}
    (hMarked :
      ∀ j, j.1 ∈ hdr.sectors → freeMap.bit j = true) :
    ∃ freeMap',
      deallocate hdr freeMap = some freeMap' ∧
      ∀ j,
        freeMap'.bit j =
          (!decide (j.1 ∈ hdr.sectors) && freeMap.bit j) := by
  unfold deallocate
  rw [hWf.numSectors_toInt, Int.toNat_natCast]
  exact deallocateLoop_spec hWf hNodup hMarked
    (Nat.le_refl _)

end FileHeader

end Nachos

------------------------------------
-- Sizes That Are Accepted
------------------------------------

namespace Nachos

open CInt

namespace FileHeader

/- The loop leaves the table when it is full. -/
theorem allocateLoop_eq_none
    (hdr : FileHeader)
    (freeMap : BitMap NumSectors)
    {n : Nat}
    (hLarge : NumDirect < n) :
    allocateLoop hdr freeMap n = none := by
  cases n with
  | zero => exact absurd hLarge (Nat.not_lt_zero _)
  | succ n =>
      have hFull : ¬ n < NumDirect := by
        omega
      simp only [allocateLoop, dif_neg hFull]
      cases allocateLoop hdr freeMap n with
      | none => rfl
      | some result => rfl

/- A file of negative size gets no sectors. -/
theorem allocate_of_neg
    (hdr : FileHeader)
    (freeMap : BitMap NumSectors)
    {size : Int}
    (hNeg : size < 0) :
    allocate hdr freeMap size =
      some (true,
        { hdr with
          numBytes := BitVec.ofInt 32 size
          numSectors :=
            BitVec.ofInt 32 (divRoundUp size SectorSize) },
        freeMap) := by
  have hCount : divRoundUp size SectorSize ≤ 0 := by
    have hSize : size = -(size.natAbs : Int) := by
      omega
    rw [hSize, divRoundUp_neg_natCast]
    exact Int.neg_nonpos_of_nonneg (Int.natCast_nonneg _)
  have hEnough : ¬ (freeMap.numClear : Int) <
      divRoundUp size SectorSize := by
    omega
  unfold allocate
  dsimp only
  rw [if_neg hEnough, Int.toNat_of_nonpos hCount]
  rfl

/- A file above the limit does not fit into the table. -/
theorem allocate_of_gt
    (hdr : FileHeader)
    {freeMap : BitMap NumSectors}
    {size : Nat}
    (hSize : MaxFileSize < size)
    (hFree : sectorsFor size ≤ freeMap.freeBits.length) :
    allocate hdr freeMap size = none := by
  have hCeil : divRoundUp (size : Int) SectorSize =
      (sectorsFor size : Nat) :=
    divRoundUp_natCast size (by decide)
  have hLarge : NumDirect < sectorsFor size := by
    simp only [MaxFileSize, NumDirect, SectorSize,
      sectorsFor] at hSize ⊢
    omega
  unfold allocate
  dsimp only
  rw [hCeil, freeMap.numClear_eq, if_neg (by omega),
    Int.toNat_natCast, allocateLoop_eq_none _ _ hLarge]
  rfl

/-
  Allocation stays inside of the table, and a header that it
  accepts has the size and the number of sectors that the
  file needs.
-/
def AllocatesSoundly
    (hdr : FileHeader)
    (freeMap : BitMap NumSectors)
    (size : Int) : Prop :=
  ∃ accepted hdr' freeMap',
    allocate hdr freeMap size =
      some (accepted, hdr', freeMap') ∧
    (accepted = true →
      0 ≤ hdr'.numBytes.toInt ∧
      hdr'.numBytes.toInt = size ∧
      hdr'.numSectors.toInt =
        (size + (SectorSize - 1)) / SectorSize ∧
      hdr'.numSectors.toInt ≤ NumDirect)

/-
  Sizes are accepted soundly just if they are within the
  limit, or if the free map has too few sectors for them.
-/
theorem allocatesSoundly_iff
    (hdr : FileHeader)
    (freeMap : BitMap NumSectors)
    (initialSize : BitVec 32) :
    AllocatesSoundly hdr freeMap initialSize.toInt ↔
      (0 ≤ initialSize.toInt ∧
        initialSize.toInt ≤ MaxFileSize) ∨
      (freeMap.numClear : Int) <
        divRoundUp initialSize.toInt SectorSize := by
  by_cases hNeg : initialSize.toInt < 0
  · have hRun := allocate_of_neg hdr freeMap hNeg
    constructor
    · rintro ⟨accepted, hdr', freeMap', hSome, hSound⟩
      rw [hRun] at hSome
      cases hSome
      have hBytes := hSound rfl
      omega
    · rintro (hLimit | hFew)
      · omega
      · unfold allocate at hRun
        dsimp only at hRun
        rw [if_pos hFew] at hRun
        cases hRun
  rcases Int.eq_ofNat_of_zero_le (Int.not_lt.mp hNeg) with
    ⟨size, hSize⟩
  rw [hSize]
  have hCeil : divRoundUp (size : Int) SectorSize =
      (sectorsFor size : Nat) :=
    divRoundUp_natCast size (by decide)
  rw [hCeil, freeMap.numClear_eq]
  by_cases hFew :
      freeMap.freeBits.length < sectorsFor size
  · rcases allocate_of_lt hdr hFew with ⟨hdr', hRun⟩
    refine iff_of_true ⟨false, hdr', freeMap, hRun, ?_⟩
      (Or.inr (by omega))
    intro hFalse
    cases hFalse
  by_cases hLimit : size ≤ MaxFileSize
  · rcases allocate_spec hdr hLimit (Nat.not_lt.mp hFew) with
      ⟨hdr', freeMap', hRun, hWf, hLength, _, _⟩
    refine iff_of_true ⟨true, hdr', freeMap', hRun, ?_⟩
      (Or.inl (by omega))
    intro _
    have hBytes := hWf.fileLength_eq
    have hSectors := hWf.numSectors_eq
    have hDirect := hWf.numSectors_le
    unfold fileLength at hBytes
    rw [hLength] at hBytes hSectors
    have hCount := hWf.numSectors_toInt
    simp only [SectorSize] at hSectors ⊢
    omega
  · refine iff_of_false ?_ (by omega)
    rintro ⟨accepted, hdr', freeMap', hSome, _⟩
    rw [allocate_of_gt hdr (Nat.not_le.mp hLimit)
      (Nat.not_lt.mp hFew)] at hSome
    cases hSome

/- An empty header and a map without a used sector. -/
def blank :
    FileHeader :=
  ⟨0, 0, fun _ => 0⟩

def noneUsed :
    BitMap NumSectors :=
  ⟨fun _ => 0⟩

/-
  A negative size is accepted, and a size above the limit
  makes the loop leave the table.
-/
theorem bad_sizes_pass :
    (∃ hdr', allocate blank noneUsed (-1) =
        some (true, hdr', noneUsed) ∧
      hdr'.numBytes.toInt = -1) ∧
    allocate blank noneUsed (MaxFileSize + 1) = none := by
  constructor
  · exact ⟨_, allocate_of_neg blank noneUsed (by decide),
      by decide⟩
  · exact allocate_of_gt blank (Nat.lt_succ_self MaxFileSize)
      (by decide +kernel)

end FileHeader

end Nachos

------------------------------------
-- Taking and Giving Back
------------------------------------

namespace Nachos

namespace BitMap

/- Maps without spare bits are known by their bits. -/
theorem ext_bit
    {m m' : BitMap NumSectors}
    (hBits : ∀ i, m'.bit i = m.bit i) :
    m' = m := by
  rcases m with ⟨words⟩
  rcases m' with ⟨words'⟩
  congr 1
  funext w
  apply BitVec.eq_of_getLsbD_eq
  intro j hj
  have hw := w.2
  have hWords : numWords NumSectors = 32 :=
    numWords_eq NumSectors
  have hLt : w.1 * 32 + j < NumSectors := by
    simp only [NumSectors, SectorsPerTrack, NumTracks]
    omega
  have hBit := hBits ⟨w.1 * 32 + j, hLt⟩
  have hWord :
      wordIndex (⟨w.1 * 32 + j, hLt⟩ : Fin NumSectors) =
        w := by
    apply Fin.ext
    simp only [wordIndex, BitsInWord]
    omega
  have hRest : (w.1 * 32 + j) % 32 = j := by
    omega
  rw [bit_eq_getLsbD, bit_eq_getLsbD, hWord] at hBit
  simpa only [hRest] using hBit

end BitMap

namespace FileHeader

/-
  What an allocation that succeeds has taken: the lowest clear
  bits of the map, in order, which can be given back.
-/
structure TakesLowest
    (freeMap : BitMap NumSectors)
    (size : Nat)
    (hdr' : FileHeader)
    (freeMap' : BitMap NumSectors) : Prop where
  count : hdr'.sectors.length = sectorsFor size
  increasing : hdr'.sectors.Pairwise (· < ·)
  clear :
    ∀ s ∈ hdr'.sectors, ∃ j : Fin NumSectors,
      j.1 = s ∧ freeMap.bit j = false
  lowest :
    ∀ i : Fin NumSectors, ∀ s ∈ hdr'.sectors,
      freeMap.bit i = false → i.1 < s → i.1 ∈ hdr'.sectors
  taken :
    ∀ j, freeMap'.bit j =
      (decide (j.1 ∈ hdr'.sectors) || freeMap.bit j)
  restored : deallocate hdr' freeMap' = some freeMap

/- The clear bits are listed in increasing order. -/
theorem pairwise_freeBits
    (freeMap : BitMap NumSectors) :
    freeMap.freeBits.Pairwise (· < ·) :=
  (List.pairwise_lt_finRange NumSectors).filter _

/- Bits below one of the first clear bits come first. -/
theorem mem_take_of_lt
    {α : Type}
    [Preorder α]
    {l : List α}
    (hSorted : l.Pairwise (· < ·))
    {n : Nat}
    {x y : α}
    (hx : x ∈ l)
    (hy : y ∈ l.take n)
    (hLt : x < y) :
    x ∈ l.take n := by
  rw [← List.take_append_drop n l, List.mem_append] at hx
  rcases hx with hTake | hDrop
  · exact hTake
  · rw [← List.take_append_drop n l,
      List.pairwise_append] at hSorted
    exact absurd (hSorted.2.2 y hy x hDrop) (not_lt_of_gt hLt)

theorem takesLowest
    {freeMap freeMap' : BitMap NumSectors}
    {size : Nat}
    {hdr' : FileHeader}
    (hWf : hdr'.WellFormed)
    (hLength : hdr'.length = size)
    (hSectors :
      hdr'.sectors =
        (freeMap.freeBits.take (sectorsFor size)).map
          Fin.val)
    (hBits :
      ∀ j, freeMap'.bit j =
        (decide (j.1 ∈ hdr'.sectors) || freeMap.bit j)) :
    TakesLowest freeMap size hdr' freeMap' := by
  have hSorted : hdr'.sectors.Pairwise (· < ·) := by
    rw [hSectors, List.pairwise_map]
    exact (pairwise_freeBits freeMap).sublist
      (List.take_sublist _ _)
  have hClear : ∀ s ∈ hdr'.sectors, ∃ j : Fin NumSectors,
      j.1 = s ∧ freeMap.bit j = false := by
    intro s hs
    rw [hSectors] at hs
    rcases List.mem_map.mp hs with ⟨j, hj, rfl⟩
    exact ⟨j, rfl, (freeMap.mem_freeBits_iff j).mp
      (List.mem_of_mem_take hj)⟩
  refine ⟨?_, hSorted, hClear, ?_, hBits, ?_⟩
  · rw [hWf.length_sectors, hLength]
  · intro i s hs hFree hLt
    rw [hSectors] at hs ⊢
    rcases List.mem_map.mp hs with ⟨j, hj, rfl⟩
    apply List.mem_map_of_mem
    exact mem_take_of_lt (pairwise_freeBits freeMap)
      ((freeMap.mem_freeBits_iff i).mpr hFree) hj hLt
  · have hNodup : hdr'.sectors.Nodup :=
      hSorted.imp Nat.ne_of_lt
    have hMarked : ∀ j : Fin NumSectors,
        j.1 ∈ hdr'.sectors → freeMap'.bit j = true := by
      intro j hj
      rw [hBits, decide_eq_true hj, Bool.true_or]
    rcases deallocate_spec hWf hNodup hMarked with
      ⟨freeMap'', hRun, hAfter⟩
    rw [hRun]
    refine congrArg some (BitMap.ext_bit ?_)
    intro j
    rw [hAfter, hBits]
    by_cases hj : j.1 ∈ hdr'.sectors
    · rcases hClear _ hj with ⟨i, hi, hFree⟩
      rw [Fin.ext hi] at hFree
      rw [decide_eq_true hj, hFree]
      rfl
    · rw [decide_eq_false hj]
      rfl

/-
  Within the limit an allocation that is refused changes
  nothing, and one that succeeds takes the lowest clear bits
  and can be undone.
-/
theorem allocate_exact
    (hdr : FileHeader)
    (freeMap : BitMap NumSectors)
    {size : Nat}
    (hSize : size ≤ MaxFileSize) :
    ∃ accepted hdr' freeMap',
      allocate hdr freeMap size =
        some (accepted, hdr', freeMap') ∧
      (accepted = true ↔
        sectorsFor size ≤ freeMap.numClear) ∧
      (accepted = false → freeMap' = freeMap) ∧
      (accepted = true →
        hdr'.numSectors.toNat = sectorsFor size ∧
        TakesLowest freeMap size hdr' freeMap') := by
  rw [freeMap.numClear_eq]
  by_cases hFree :
      sectorsFor size ≤ freeMap.freeBits.length
  · rcases allocate_spec hdr hSize hFree with
      ⟨hdr', freeMap', hRun, hWf, hLength, hSectors, hBits⟩
    refine ⟨true, hdr', freeMap', hRun,
      iff_of_true rfl hFree, nofun, ?_⟩
    intro _
    refine ⟨?_, takesLowest hWf hLength hSectors hBits⟩
    rw [hWf.numSectors_eq, hLength]
    rfl
  · rcases allocate_of_lt hdr (Nat.not_le.mp hFree) with
      ⟨hdr', hRun⟩
    exact ⟨false, hdr', freeMap, hRun,
      iff_of_false nofun hFree, fun _ => rfl, nofun⟩

/- A file of 200 bytes on an empty disk. -/
theorem allocate_exact_two_sectors :
    ∃ accepted hdr' freeMap',
      allocate blank noneUsed (200 : Nat) =
        some (accepted, hdr', freeMap') ∧
      (accepted = true ↔
        sectorsFor 200 ≤ noneUsed.numClear) ∧
      (accepted = false → freeMap' = noneUsed) ∧
      (accepted = true →
        hdr'.numSectors.toNat = sectorsFor 200 ∧
        TakesLowest noneUsed 200 hdr' freeMap') :=
  allocate_exact blank noneUsed (by decide)

end FileHeader

end Nachos
