import Nachos.Machine.Translate

/-
  Translation with a TLB and with a page table.

  The TLB holds copies of page table entries.  As long as an
  access does not miss in the TLB, both ways of translation
  end in the same exception or the same physical address.

  Main declarations:
    * `Machine.translated`
    * `Aligned`
    * `Machine.translated_hit`
    * `Machine.translated_page`
    * `Machine.tlb_agrees_with_pageTable`
-/

------------------------------------
-- Alignment
------------------------------------

namespace Nachos

variable {virtAddr : Word}

/- The access passes the check for alignment. -/
def Aligned
    (virtAddr : Word)
    (size : Nat) : Prop :=
  ¬ (size = 4 ∧ virtAddr &&& 3 ≠ 0 ∨
    size = 2 ∧ virtAddr &&& 1 ≠ 0)

theorem mod_four_of_and
    (hAnd : virtAddr &&& 3 = 0) :
    virtAddr.toNat % 4 = 0 := by
  have hNat := congrArg BitVec.toNat hAnd
  rw [BitVec.toNat_and] at hNat
  exact (Nat.and_two_pow_sub_one_eq_mod _ 2).symm.trans hNat

theorem mod_two_of_and
    (hAnd : virtAddr &&& 1 = 0) :
    virtAddr.toNat % 2 = 0 := by
  have hNat := congrArg BitVec.toNat hAnd
  rw [BitVec.toNat_and] at hNat
  exact (Nat.and_two_pow_sub_one_eq_mod _ 1).symm.trans hNat

/- An access that is aligned stays inside of its page. -/
theorem Aligned.offset_add_le
    {size : Nat}
    (hAligned : Aligned virtAddr size)
    (hSize : size = 1 ∨ size = 2 ∨ size = 4) :
    virtAddr.toNat % PageSize + size ≤ PageSize := by
  unfold Aligned at hAligned
  simp only [PageSize, SectorSize]
  rcases hSize with rfl | rfl | rfl
  · omega
  · have hAnd : virtAddr &&& 1 = 0 := by
      by_contra hNe
      exact hAligned (Or.inr ⟨rfl, hNe⟩)
    have hMod := mod_two_of_and hAnd
    omega
  · have hAnd : virtAddr &&& 3 = 0 := by
      by_contra hNe
      exact hAligned (Or.inl ⟨rfl, hNe⟩)
    have hMod := mod_four_of_and hAnd
    omega

end Nachos

------------------------------------
-- Where an Access Goes
------------------------------------

namespace Nachos

namespace TranslationEntry

/- The exception or the physical address of an access. -/
def target
    (entry : TranslationEntry)
    (offset size : Nat)
    (writing : Bool) :
    Option (Except ExceptionType Nat) :=
  (entry.access offset size writing).map
    (Except.map Prod.fst)

variable {entry entry' : TranslationEntry}

/- It depends on two fields of the entry. -/
theorem target_congr
    (offset size : Nat)
    (writing : Bool)
    (hPage : entry'.physicalPage = entry.physicalPage)
    (hReadOnly : entry'.readOnly = entry.readOnly) :
    entry'.target offset size writing =
      entry.target offset size writing := by
  unfold target access
  rw [hPage, hReadOnly]
  dsimp only
  split
  · rfl
  · split
    · rfl
    · split
      · rfl
      · rfl

/- Inside of a page the assertion holds. -/
theorem exists_target
    {offset size : Nat}
    (entry : TranslationEntry)
    (writing : Bool)
    (hOffset : offset + size ≤ PageSize) :
    ∃ r, entry.target offset size writing = some r ∧
      r ≠ .error .pageFault := by
  unfold target access
  dsimp only
  split
  · exact ⟨_, rfl, nofun⟩
  · split
    · exact ⟨_, rfl, nofun⟩
    · rename_i hFrame
      have hInside : entry.physicalPage.toNat * PageSize +
          offset + size ≤ MemorySize := by
        simp only [MemorySize, NumPhysPages, PageSize,
          SectorSize] at hFrame hOffset ⊢
        omega
      rw [if_pos hInside]
      exact ⟨_, rfl, nofun⟩

end TranslationEntry

namespace Machine

/- The result of `Translate` without its side effects. -/
def translated
    (m : Machine)
    (virtAddr : Word)
    (size : Nat)
    (writing : Bool) :
    Option (Except ExceptionType Nat) :=
  (m.translate virtAddr size writing).map
    (Except.map Prod.fst)

variable {m : Machine}
variable {virtAddr : Word}
variable {size : Nat}
variable {writing : Bool}
variable {tlb : Fin TLBSize → TranslationEntry}
variable {pageTable : Nat → TranslationEntry}

theorem map_useTLB
    (m : Machine)
    (tlb : Fin TLBSize → TranslationEntry)
    (i : Fin TLBSize)
    (offset size : Nat)
    (writing : Bool) :
    (m.useTLB tlb i offset size writing).map
        (Except.map Prod.fst) =
      (tlb i).target offset size writing := by
  unfold useTLB TranslationEntry.target
  cases (tlb i).access offset size writing with
  | none => rfl
  | some result =>
      cases result with
      | error which => rfl
      | ok pair => rfl

theorem map_usePage
    (m : Machine)
    (pageTable : Nat → TranslationEntry)
    (vpn offset size : Nat)
    (writing : Bool) :
    (m.usePage pageTable vpn offset size writing).map
        (Except.map Prod.fst) =
      (pageTable vpn).target offset size writing := by
  unfold usePage TranslationEntry.target
  cases (pageTable vpn).access offset size writing with
  | none => rfl
  | some result =>
      cases result with
      | error which => rfl
      | ok pair => rfl

theorem translated_of_not_aligned
    (hNot : ¬ Aligned virtAddr size) :
    m.translated virtAddr size writing =
      some (.error .addressError) := by
  unfold translated translate
  dsimp only
  rw [if_pos (not_not.mp hNot)]
  rfl

theorem translated_miss
    (hTLB : m.tlb = some tlb)
    (hTable : m.pageTable = none)
    (hAligned : Aligned virtAddr size)
    (hFind :
      findEntry tlb (virtAddr.toNat / PageSize) = none) :
    m.translated virtAddr size writing =
      some (.error .pageFault) := by
  unfold translated translate
  dsimp only
  rw [if_neg hAligned, hTLB, hTable]
  dsimp only
  rw [hFind]
  rfl

theorem translated_hit
    {i : Fin TLBSize}
    (hTLB : m.tlb = some tlb)
    (hTable : m.pageTable = none)
    (hAligned : Aligned virtAddr size)
    (hFind :
      findEntry tlb (virtAddr.toNat / PageSize) = some i) :
    m.translated virtAddr size writing =
      (tlb i).target (virtAddr.toNat % PageSize) size
        writing := by
  unfold translated translate
  dsimp only
  rw [if_neg hAligned, hTLB, hTable]
  dsimp only
  rw [hFind]
  exact map_useTLB m tlb i _ size writing

theorem translated_page
    (hTLB : m.tlb = none)
    (hTable : m.pageTable = some pageTable)
    (hAligned : Aligned virtAddr size)
    (hPage :
      virtAddr.toNat / PageSize < m.pageTableSize.toNat)
    (hValid :
      (pageTable (virtAddr.toNat / PageSize)).valid = true) :
    m.translated virtAddr size writing =
      (pageTable (virtAddr.toNat / PageSize)).target
        (virtAddr.toNat % PageSize) size writing := by
  unfold translated translate
  dsimp only
  rw [if_neg hAligned, hTLB, hTable]
  dsimp only
  rw [if_neg (Nat.not_le_of_gt hPage),
    if_neg (by rw [hValid]; exact Bool.noConfusion)]
  exact map_usePage m pageTable _ _ size writing

end Machine

end Nachos

------------------------------------
-- Agreement
------------------------------------

namespace Nachos

/-
  Valid TLB entries are copies of valid page table entries,
  which are found under the number of the page.
-/
def Copies
    (tlb : Fin TLBSize → TranslationEntry)
    (pageTable : Nat → TranslationEntry)
    (pageTableSize : Word) : Prop :=
  ∀ i, (tlb i).valid = true →
    (tlb i).virtualPage.toNat < pageTableSize.toNat ∧
      (pageTable (tlb i).virtualPage.toNat).valid = true ∧
      (tlb i).virtualPage =
        (pageTable (tlb i).virtualPage.toNat).virtualPage ∧
      (tlb i).physicalPage =
        (pageTable (tlb i).virtualPage.toNat).physicalPage ∧
      (tlb i).readOnly =
        (pageTable (tlb i).virtualPage.toNat).readOnly

instance
    (tlb : Fin TLBSize → TranslationEntry)
    (pageTable : Nat → TranslationEntry)
    (pageTableSize : Word) :
    Decidable (Copies tlb pageTable pageTableSize) :=
  inferInstanceAs (Decidable (∀ _, _))

namespace Machine

variable {m n : Machine}
variable {virtAddr : Word}
variable {size : Nat}
variable {tlb : Fin TLBSize → TranslationEntry}
variable {pageTable : Nat → TranslationEntry}

theorem findEntry_eq_some
    {vpn : Nat}
    {i : Fin TLBSize}
    (hFind : findEntry tlb vpn = some i) :
    (tlb i).valid = true ∧
      (tlb i).virtualPage.toNat = vpn := by
  have hHit := List.find?_some hFind
  simpa using hHit

theorem findEntry_eq_none
    {vpn : Nat} :
    findEntry tlb vpn = none ↔
      ∀ i, (tlb i).valid = true →
        (tlb i).virtualPage.toNat ≠ vpn := by
  unfold findEntry
  rw [List.find?_eq_none]
  simp

/-
  Unless an access misses in the TLB, it ends as with the
  page table; and it misses just if it is aligned and no
  valid entry holds the page.
-/
theorem tlb_agrees_with_pageTable
    (hTLB : m.tlb = some tlb ∧ m.pageTable = none)
    (hTable : n.tlb = none ∧ n.pageTable = some pageTable)
    (hCopies : Copies tlb pageTable n.pageTableSize)
    (hSize : size = 1 ∨ size = 2 ∨ size = 4)
    (virtAddr : Word)
    (writing : Bool) :
    ∃ r, m.translated virtAddr size writing = some r ∧
      (r ≠ .error .pageFault →
        n.translated virtAddr size writing = some r) ∧
      (r = .error .pageFault ↔
        Aligned virtAddr size ∧
          ∀ i, (tlb i).valid = true →
            (tlb i).virtualPage.toNat ≠
              virtAddr.toNat / PageSize) := by
  by_cases hAligned : Aligned virtAddr size
  · cases hFind : findEntry tlb (virtAddr.toNat / PageSize) with
    | none =>
        refine ⟨_, translated_miss hTLB.1 hTLB.2 hAligned hFind,
          fun hNe => absurd rfl hNe, ?_⟩
        exact ⟨fun _ => ⟨hAligned, findEntry_eq_none.mp hFind⟩,
          fun _ => rfl⟩
    | some i =>
        rcases findEntry_eq_some hFind with ⟨hValid, hPage⟩
        rcases hCopies i hValid with
          ⟨hLt, hTableValid, _, hFrame, hReadOnly⟩
        rw [hPage] at hLt hTableValid hFrame hReadOnly
        have hInside := hAligned.offset_add_le hSize
        rcases (tlb i).exists_target writing hInside with
          ⟨r, hTarget, hNe⟩
        have hSame := TranslationEntry.target_congr
          (virtAddr.toNat % PageSize) size writing hFrame
          hReadOnly
        refine ⟨r, ?_, ?_, ?_⟩
        · rw [translated_hit hTLB.1 hTLB.2 hAligned hFind]
          exact hTarget
        · intro _
          rw [translated_page hTable.1 hTable.2 hAligned hLt
            hTableValid]
          exact hSame.symm.trans hTarget
        · constructor
          · intro hEq
            exact absurd hEq hNe
          · intro hNone
            exact absurd hPage (hNone.2 i hValid)
  · refine ⟨_, translated_of_not_aligned hAligned, ?_, ?_⟩
    · intro _
      exact translated_of_not_aligned hAligned
    · constructor
      · intro hEq
        cases hEq
      · intro hBoth
        exact absurd hBoth.1 hAligned

/- Page 0 in frame 3, for reading only. -/
def onePage :
    TranslationEntry :=
  ⟨0, 3, true, true, false, false⟩

def withTables
    (tlb : Option (Fin TLBSize → TranslationEntry))
    (pageTable : Option (Nat → TranslationEntry)) :
    Machine :=
  ⟨fun _ => 0, fun _ => 0, tlb, pageTable, 1⟩

/- A read of the page in both modes. -/
theorem tlb_agrees_on_one_page :
    ∃ r,
      (withTables (some fun _ => onePage) none).translated 4 4
        false = some r ∧
      (r ≠ .error .pageFault →
        (withTables none (some fun _ => onePage)).translated
          4 4 false = some r) ∧
      (r = .error .pageFault ↔
        Aligned 4 4 ∧
          ∀ _ : Fin TLBSize, onePage.valid = true →
            onePage.virtualPage.toNat ≠
              (4 : Word).toNat / PageSize) :=
  tlb_agrees_with_pageTable ⟨rfl, rfl⟩ ⟨rfl, rfl⟩ (by decide)
    (Or.inr (Or.inr rfl)) 4 false

end Machine

end Nachos
